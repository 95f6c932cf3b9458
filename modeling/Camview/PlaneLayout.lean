/-
Two files compute the geometry of a picture. `init_display` lays out the planes
of a buffer, with `(x + 32) & ~32` and `(x + PAGE_SIZE) & ~PAGE_SIZE`;
`hw_decode_jpeg` programs a line stride of `(width + 31) & ~31` and `set_size` a
number of rows, and the hardware writes as many bytes.

`layout_fits_iff`: the planes hold what is written exactly when the padding that
the first idiom adds (`padded`) is at least the padding of the second, and the
layout does not wrap at 32 bits.
-/
import Camview.Rounding

namespace Camview

/-! ## init_display -/

/-- `data_offsets[0]`, `data_offsets[1]` and `buffer_size`. -/
structure PlaneLayout where
  uOffset : UInt32
  vOffset : UInt32
  bufferSize : UInt32
deriving DecidableEq, Repr

/-- `subsampling_divisor`, which stays unset for other formats. -/
def subsamplingDivisor (format : UInt8) : Option UInt8 :=
  if format = 0x22 then some 4
  else if format = 0x21 then some 2
  else if format = 0x11 then some 1
  else none

/-- `(x + 32) & ~32`. -/
def align32 (x : UInt32) : UInt32 := (x + 32) &&& ~~~32

/-- `(x + PAGE_SIZE) & ~PAGE_SIZE`. -/
def alignPage (x : UInt32) : UInt32 := (x + 4096) &&& ~~~4096

/-- The buffer size and offsets of `init_display`, from the divisor of the format. -/
def planeLayout (width height : UInt32) (divisor : UInt8) : PlaneLayout :=
  let wAligned := align32 width
  let hAligned := align32 height
  let sizePageAligned := alignPage (wAligned * hAligned)
  let uOffset := sizePageAligned
  let uSize := alignPage (sizePageAligned / divisor.toUInt32)
  let vOffset := uOffset + uSize
  let vSize := uSize
  let totalSize := vOffset + vSize
  ⟨uOffset, vOffset, alignPage totalSize⟩

/-- The layout of `init_display`, for the formats it supports. -/
def initLayout (width height : UInt32) (format : UInt8) : Option PlaneLayout :=
  (subsamplingDivisor format).map (planeLayout width height)

/-! ## hw_decode_jpeg -/

/-- `line_stride` of `hw_decode_jpeg`. -/
def lineStride (width : UInt16) : UInt32 := (width.toUInt32 + 31) &&& ~~~31

/-- `h` and `w` of `set_size`, from a dimension and the sampling factor along it. -/
def sizeUnits (length : UInt16) (samp : UInt8) : UInt16 :=
  UInt16.ofInt (((length.toNat : Int) - 1).tdiv (8 * samp.toNat))

/-! ## In exact arithmetic -/

/-- The rows of the units `set_size` programs. -/
def decodedRows (height sampV : Nat) : Nat := 8 * sampV * ((height - 1) / (8 * sampV) + 1)

/-- The bytes a decoder writes beyond the picture, with a line stride of whole
32s and whole units of rows. -/
def decoderPadding (width height sampV : Nat) : Nat :=
  (ceilTo 5 width - width) * decodedRows height sampV + width * (decodedRows height sampV - height)

/-- The bytes `init_display` adds to the luma plane: 32 columns where bit 5 of
the width is set, 32 rows where bit 5 of the height is, and a page where bit 12
of the size then is. -/
def layoutPadding (width height : Nat) : Nat :=
  32 * (bitAt 5 width * height + width * bitAt 5 height) + 1024 * (bitAt 5 width * bitAt 5 height) +
    4096 * bitAt 12 (padded 5 width * padded 5 height)

/-- A padded luma plane and two padded chroma planes. -/
def layoutBytes (luma divisor : Nat) : Nat := padded 12 (luma + 2 * padded 12 (luma / divisor))

/-- When the planes hold what is decoded. -/
def LayoutFits (width height sampV divisor : Nat) : Prop :=
  decoderPadding width height sampV ≤ layoutPadding width height ∧
    layoutBytes (width * height + layoutPadding width height) divisor < 2 ^ 32

instance (width height sampV divisor : Nat) : Decidable (LayoutFits width height sampV divisor) :=
  inferInstanceAs (Decidable (_ ∧ _))

/-- The planes decoded into are apart, and inside the buffer. -/
structure PlanesFit (L : PlaneLayout) (luma divisor : Nat) : Prop where
  y : luma ≤ L.uOffset.toNat
  u : L.uOffset.toNat + luma / divisor ≤ L.vOffset.toNat
  v : L.vOffset.toNat + luma / divisor ≤ L.bufferSize.toNat

/-! ## The words as numbers -/

theorem toNat_align32 (x : UInt32) : (align32 x).toNat = padded 5 x.toNat % 2 ^ 32 :=
  toNat_padded x.toBitVec (k := 5) (by decide)

theorem toNat_alignPage (x : UInt32) : (alignPage x).toNat = padded 12 x.toNat % 2 ^ 32 :=
  toNat_padded x.toBitVec (k := 12) (by decide)

theorem toNat_lineStride (width : UInt16) : (lineStride width).toNat = ceilTo 5 width.toNat :=
  toNat_ceilTo width.toUInt32.toBitVec 31 (k := 5) rfl (by
    have := width.toNat_lt
    show width.toNat + 31 < 2 ^ 32
    omega)

theorem toNat_sizeUnits {length : UInt16} {samp : UInt8} (hl : length ≠ 0) :
    (sizeUnits length samp).toNat = (length.toNat - 1) / (8 * samp.toNat) := by
  have h0 : 0 < length.toNat := Nat.pos_of_ne_zero fun e => hl (UInt16.toNat_inj.1 e)
  have hlt := length.toNat_lt
  have hle := Nat.div_le_self (length.toNat - 1) (8 * samp.toNat)
  have he : (length.toNat : Int) - 1 = ((length.toNat - 1 : Nat) : Int) := by omega
  have hd : (8 * samp.toNat : Int) = ((8 * samp.toNat : Nat) : Int) := by simp
  unfold sizeUnits
  rw [he, hd, ← Int.ofNat_tdiv, UInt16.ofInt, UInt16.toNat_ofNat']
  generalize (length.toNat - 1) / (8 * samp.toNat) = q at *
  omega

/-! ## Wrapping -/

section Wrap

variable {width height : Nat}

theorem le_decodedRows {sampV : Nat} (hv : 0 < sampV) (hh : 0 < height) : height ≤ decodedRows height sampV := by
  have hd := Nat.div_add_mod (height - 1) (8 * sampV)
  have hm := Nat.mod_lt (height - 1) (show 0 < 8 * sampV by omega)
  unfold decodedRows
  rw [Nat.mul_add, Nat.mul_one]
  omega

/-- What is decoded is the picture and the decoder's padding. -/
theorem decoded_eq {sampV : Nat} (hv : 0 < sampV) (hh : 0 < height) :
    ceilTo 5 width * decodedRows height sampV = width * height + decoderPadding width height sampV := by
  obtain ⟨a, ha⟩ := Nat.exists_eq_add_of_le (le_ceilTo 5 width)
  obtain ⟨b, hb⟩ := Nat.exists_eq_add_of_le (le_decodedRows hv hh)
  unfold decoderPadding
  rw [ha, hb, Nat.add_sub_cancel_left, Nat.add_sub_cancel_left, Nat.add_mul, Nat.mul_add width height b]
  omega

/-- The luma plane is the picture and the layout's padding. -/
theorem luma_eq : padded 12 (padded 5 width * padded 5 height) = width * height + layoutPadding width height := by
  show padded 5 width * padded 5 height + 2 ^ 12 * bitAt 12 (padded 5 width * padded 5 height) = _
  unfold layoutPadding
  generalize bitAt 12 (padded 5 width * padded 5 height) = p
  unfold padded
  generalize bitAt 5 width = i
  generalize bitAt 5 height = j
  ring

/-- A luma plane that wraps does not hold the picture. -/
theorem luma_wraps (hw : width < 65536) (hh : height < 65536)
    (h : 2 ^ 32 ≤ padded 12 (padded 5 width * padded 5 height)) :
    padded 12 (padded 5 width * padded 5 height % 2 ^ 32) % 2 ^ 32 < width * height := by
  have hcw := padded_cases 5 width
  have hch := padded_cases 5 height
  have h12 := padded_cases 12 (padded 5 width * padded 5 height)
  have h12' := padded_cases 12 (padded 5 width * padded 5 height % 2 ^ 32)
  -- Both sides are close to `2 ^ 16`.
  have hwide : 65504 ≤ padded 5 width := by
    by_contra hlt
    have := Nat.mul_le_mul (show padded 5 width ≤ 65503 by omega) (show padded 5 height ≤ 65567 by omega)
    omega
  have htall : 65504 ≤ padded 5 height := by
    by_contra hlt
    have := Nat.mul_le_mul (show padded 5 width ≤ 65567 by omega) (show padded 5 height ≤ 65503 by omega)
    omega
  have hmax := Nat.mul_le_mul (show padded 5 width ≤ 65567 by omega) (show padded 5 height ≤ 65567 by omega)
  have hmin := Nat.mul_le_mul (show 65472 ≤ width by omega) (show 65472 ≤ height by omega)
  by_cases hP : padded 5 width * padded 5 height < 2 ^ 32
  · rw [Nat.mod_eq_of_lt hP]
    omega
  · omega

end Wrap

/-- The chroma planes and the buffer, for a luma plane of `luma` bytes that does
not wrap: nothing after it may wrap either. -/
theorem planes_fit_iff {luma n d : Nat} (hd : d = 1 ∨ d = 2 ∨ d = 4) (hl : luma < 2 ^ 32)
    (hp : padded 12 luma = luma) {u v b : Nat} (hu : u = padded 12 (luma / d) % 2 ^ 32)
    (hv : v = (luma + u) % 2 ^ 32) (hb : b = padded 12 ((v + u) % 2 ^ 32) % 2 ^ 32) :
    (n ≤ luma ∧ luma + n / d ≤ v ∧ v + n / d ≤ b) ↔ n ≤ luma ∧ layoutBytes luma d < 2 ^ 32 := by
  have hcu := padded_cases 12 (luma / d)
  -- A chroma plane is a part of the luma plane, and a page at most.
  have hchroma : u = padded 12 (luma / d) ∧ u < 2 ^ 32 ∧ luma ≤ 4 * u + 3 ∧ (u = luma ∨ 2 * u ≤ luma + 8192) := by
    rcases hd with rfl | rfl | rfl
    · rw [Nat.div_one, hp] at hu ⊢
      omega
    · omega
    · omega
  obtain ⟨hu', hlt, hle, hge⟩ := hchroma
  clear hu hcu
  unfold layoutBytes
  rw [← hu']
  have hcb := padded_cases 12 ((v + u) % 2 ^ 32)
  have hct := padded_cases 12 (luma + 2 * u)
  generalize hq : n / d = q
  have hqu : n ≤ luma → q ≤ u := fun hn => by
    have hdiv : n / d ≤ luma / d := Nat.div_le_div_right hn
    have := le_padded 12 (luma / d)
    omega
  constructor
  · rintro ⟨hy, h1, h2⟩
    have hlv : luma + u < 2 ^ 32 := by
      -- Otherwise the V plane starts before the U plane.
      by_contra hw
      have : v = luma + u - 2 ^ 32 := by omega
      omega
    rw [Nat.mod_eq_of_lt hlv] at hv
    have hvu : v + u < 2 ^ 32 := by
      -- Otherwise the buffer ends before the V plane does.
      by_contra hw
      rw [show (v + u) % 2 ^ 32 = v + u - 2 ^ 32 by omega] at hb hcb
      have := Nat.mod_le (padded 12 (v + u - 2 ^ 32)) (2 ^ 32)
      omega
    rw [Nat.mod_eq_of_lt hvu, show v + u = luma + 2 * u by omega] at hb hcb
    refine ⟨hy, ?_⟩
    by_contra hw
    omega
  · rintro ⟨hy, ht⟩
    have := hqu hy
    have hv' : v = luma + u := by omega
    have hvu : (v + u) % 2 ^ 32 = luma + 2 * u := by omega
    rw [hvu] at hb hcb
    omega

theorem planeLayout_fits {width height : UInt16} {d : UInt8} (hd : d.toNat = 1 ∨ d.toNat = 2 ∨ d.toNat = 4)
    {n : Nat} (hn : width.toNat * height.toNat ≤ n) :
    PlanesFit (planeLayout width.toUInt32 height.toUInt32 d) n d.toNat ↔
      n ≤ width.toNat * height.toNat + layoutPadding width.toNat height.toNat ∧
        layoutBytes (width.toNat * height.toNat + layoutPadding width.toNat height.toNat) d.toNat < 2 ^ 32 := by
  have hwl := width.toNat_lt
  have hhl := height.toNat_lt
  have hcw := padded_cases 5 width.toNat
  have hch := padded_cases 5 height.toNat
  have haw : (align32 width.toUInt32).toNat = padded 5 width.toNat := by
    rw [toNat_align32, UInt16.toNat_toUInt32]
    omega
  have hah : (align32 height.toUInt32).toNat = padded 5 height.toNat := by
    rw [toNat_align32, UInt16.toNat_toUInt32]
    omega
  rw [← luma_eq]
  -- The three fields of the layout, as numbers.
  generalize hL : planeLayout width.toUInt32 height.toUInt32 d = L
  have hu : L.uOffset.toNat = padded 12 (padded 5 width.toNat * padded 5 height.toNat % 2 ^ 32) % 2 ^ 32 := by
    rw [← hL]
    show (alignPage (align32 width.toUInt32 * align32 height.toUInt32)).toNat = _
    rw [toNat_alignPage, UInt32.toNat_mul, haw, hah]
  by_cases hwrap : 2 ^ 32 ≤ padded 12 (padded 5 width.toNat * padded 5 height.toNat)
  · have hlt := luma_wraps hwl hhl hwrap
    constructor
    · intro h
      have := h.y
      omega
    · rintro ⟨-, h⟩
      have := le_padded 12 (padded 12 (padded 5 width.toNat * padded 5 height.toNat) +
        2 * padded 12 (padded 12 (padded 5 width.toNat * padded 5 height.toNat) / d.toNat))
      unfold layoutBytes at h
      omega
  · have hle := le_padded 12 (padded 5 width.toNat * padded 5 height.toNat)
    rw [Nat.mod_eq_of_lt (by omega : padded 5 width.toNat * padded 5 height.toNat < 2 ^ 32),
      Nat.mod_eq_of_lt (by omega)] at hu
    have hsize : (alignPage (L.uOffset / d.toUInt32)).toNat = padded 12 (L.uOffset.toNat / d.toNat) % 2 ^ 32 := by
      rw [toNat_alignPage, UInt32.toNat_div, UInt8.toNat_toUInt32]
    have hv : L.vOffset.toNat =
        (L.uOffset.toNat + (alignPage (L.uOffset / d.toUInt32)).toNat) % 2 ^ 32 := by
      rw [← hL, ← UInt32.toNat_add]
      rfl
    have hb : L.bufferSize.toNat =
        padded 12 ((L.vOffset.toNat + (alignPage (L.uOffset / d.toUInt32)).toNat) % 2 ^ 32) % 2 ^ 32 := by
      rw [← UInt32.toNat_add, ← toNat_alignPage, ← hL]
      rfl
    rw [← hu]
    rw [← planes_fit_iff hd L.uOffset.toNat_lt (by rw [hu, padded_padded]) hsize hv hb]
    exact ⟨fun h => ⟨h.y, h.u, h.v⟩, fun h => ⟨h.1, h.2.1, h.2.2⟩⟩

/-- **When the planes hold what the decoder writes.** For every picture of a
supported format: `init_display` leaves room for the rows and the stride that
`hw_decode_jpeg` programs, plane by plane, exactly when its padding is at least
the decoder's and the padded planes come to less than 4 GiB. -/
theorem layout_fits_iff (width height : UInt16) (sampH sampV : UInt8) (hh : height ≠ 0)
    (hf : (sampH, sampV) ∈ [(1, 1), (2, 1), (2, 2)]) :
    ∃ L, initLayout width.toUInt32 height.toUInt32 (sampH <<< 4 ||| sampV) = some L ∧
      (PlanesFit L ((lineStride width).toNat * (8 * sampV.toNat * ((sizeUnits height sampV).toNat + 1)))
          (sampH.toNat * sampV.toNat) ↔
        LayoutFits width.toNat height.toNat sampV.toNat (sampH.toNat * sampV.toNat)) := by
  obtain ⟨d, hd, hds, hcase, hv⟩ : ∃ d, subsamplingDivisor (sampH <<< 4 ||| sampV) = some d ∧
      d.toNat = sampH.toNat * sampV.toNat ∧ (d.toNat = 1 ∨ d.toNat = 2 ∨ d.toNat = 4) ∧ 0 < sampV.toNat := by
    simp only [List.mem_cons, Prod.mk.injEq, List.not_mem_nil, or_false] at hf
    rcases hf with ⟨rfl, rfl⟩ | ⟨rfl, rfl⟩ | ⟨rfl, rfl⟩
    · exact ⟨1, by decide⟩
    · exact ⟨2, by decide⟩
    · exact ⟨4, by decide⟩
  have hpos : 0 < height.toNat := Nat.pos_of_ne_zero fun e => hh (UInt16.toNat_inj.1 e)
  refine ⟨planeLayout width.toUInt32 height.toUInt32 d, by rw [initLayout, hd]; rfl, ?_⟩
  have hdec : (lineStride width).toNat * (8 * sampV.toNat * ((sizeUnits height sampV).toNat + 1)) =
      width.toNat * height.toNat + decoderPadding width.toNat height.toNat sampV.toNat := by
    rw [toNat_lineStride, toNat_sizeUnits hh, ← decoded_eq hv hpos]
    rfl
  rw [hdec, ← hds, planeLayout_fits hcase (Nat.le_add_right _ _), Nat.add_le_add_iff_left]
  rfl

/-- A picture of one pixel: 256 bytes are decoded to a plane of one byte. -/
theorem not_layout_fits : ¬ ∀ (width height : UInt16) (sampH sampV : UInt8) (L : PlaneLayout),
    width ≠ 0 → height ≠ 0 → (sampH, sampV) ∈ [(1, 1), (2, 1), (2, 2)] →
    initLayout width.toUInt32 height.toUInt32 (sampH <<< 4 ||| sampV) = some L →
    PlanesFit L ((lineStride width).toNat * (8 * sampV.toNat * ((sizeUnits height sampV).toNat + 1)))
      (sampH.toNat * sampV.toNat) := by
  intro h
  have hy := (h 1 1 1 1 ⟨1, 2, 3⟩ (by decide) (by decide) (by decide) (by decide)).y
  revert hy
  decide

theorem layout_fits_iff_sample :
    (∃ L, initLayout 640 480 0x21 = some L ∧
      PlanesFit L ((lineStride 640).toNat * (8 * 1 * ((sizeUnits 480 1).toNat + 1))) 2) ∧
    ∃ L, initLayout 1 1 0x11 = some L ∧
      ¬ PlanesFit L ((lineStride 1).toNat * (8 * 1 * ((sizeUnits 1 1).toNat + 1))) 1 := by
  constructor
  · obtain ⟨L, hL, hiff⟩ := layout_fits_iff 640 480 2 1 (by decide) (by decide)
    exact ⟨L, hL, hiff.2 (by decide)⟩
  · obtain ⟨L, hL, hiff⟩ := layout_fits_iff 1 1 1 1 (by decide) (by decide)
    exact ⟨L, hL, fun h => absurd (hiff.1 h) (by decide)⟩

end Camview
