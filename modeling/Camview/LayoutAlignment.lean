/-
The alignment of the display's layout. `init_display` rounds with
`(x + 32) & ~32` and `(x + PAGE_SIZE) & ~PAGE_SIZE`, which add the unit where its
bit is set and round nothing; `hw_decode_jpeg` rounds up to multiples of 32.

`layout_aligned_iff`: the two agree where there is nothing to round, in pictures of
whole 64s in both directions, and the pages of the chroma planes come out even.
-/
import Camview.PlaneLayout
import Mathlib.Order.Bounds.Defs

namespace Camview

/-- No step of `init_display` exceeds 32 bits: the last and greatest number it
computes is less than `2 ^ 32`. -/
def NoWrap (width height divisor : Nat) : Prop :=
  layoutBytes (padded 12 (padded 5 width * padded 5 height)) divisor < 2 ^ 32

instance (width height divisor : Nat) : Decidable (NoWrap width height divisor) :=
  inferInstanceAs (Decidable (_ < _))

/-- The dimensions are rounded up to multiples of 32, as the decoder does it, and the
planes and the buffer end with a page. -/
structure Aligned (width height : UInt16) (L : PlaneLayout) : Prop where
  wAligned : IsLeast { m | 32 ∣ m ∧ width.toNat ≤ m } (align32 width.toUInt32).toNat
  hAligned : IsLeast { m | 32 ∣ m ∧ height.toNat ≤ m } (align32 height.toUInt32).toNat
  stride : align32 width.toUInt32 = lineStride width
  rows : align32 height.toUInt32 = lineStride height
  uOffset : 4096 ∣ L.uOffset.toNat
  vOffset : 4096 ∣ L.vOffset.toNat
  bufferSize : 4096 ∣ L.bufferSize.toNat

/-! ## The dimensions -/

theorem toNat_align32_length (length : UInt16) : (align32 length.toUInt32).toNat = padded 5 length.toNat := by
  have hl := length.toNat_lt
  have hc := padded_cases 5 length.toNat
  rw [toNat_align32, UInt16.toNat_toUInt32]
  omega

theorem isLeast_ceilTo (length : Nat) : IsLeast { m | 32 ∣ m ∧ length ≤ m } (ceilTo 5 length) := by
  constructor
  · exact ⟨Dvd.intro_left _ rfl, le_ceilTo 5 length⟩
  · intro m hm
    obtain ⟨⟨k, rfl⟩, hle⟩ := hm
    unfold ceilTo
    omega

/-- The two roundings agree where bit 5 is clear and those below it. -/
theorem padded_eq_ceilTo {length : Nat} : padded 5 length = ceilTo 5 length ↔ 64 ∣ length := by
  unfold padded ceilTo bitAt
  omega

theorem align32_eq_lineStride {length : UInt16} : align32 length.toUInt32 = lineStride length ↔ 64 ∣ length.toNat := by
  rw [← UInt32.toNat_inj, toNat_align32_length, toNat_lineStride]
  exact padded_eq_ceilTo

theorem isLeast_align32 {length : UInt16} (h : 64 ∣ length.toNat) :
    IsLeast { m | 32 ∣ m ∧ length.toNat ≤ m } (align32 length.toUInt32).toNat := by
  rw [align32_eq_lineStride.2 h, toNat_lineStride]
  exact isLeast_ceilTo length.toNat

/-! ## The planes -/

section Planes

variable {width height : UInt16} {d : UInt8}

/-- The layout as numbers, where nothing wraps. -/
theorem toNat_planeLayout (h : NoWrap width.toNat height.toNat d.toNat) :
    (planeLayout width.toUInt32 height.toUInt32 d).uOffset.toNat =
      padded 12 (padded 5 width.toNat * padded 5 height.toNat) ∧
      (planeLayout width.toUInt32 height.toUInt32 d).vOffset.toNat =
        padded 12 (padded 5 width.toNat * padded 5 height.toNat) +
          padded 12 (padded 12 (padded 5 width.toNat * padded 5 height.toNat) / d.toNat) ∧
      (planeLayout width.toUInt32 height.toUInt32 d).bufferSize.toNat =
        layoutBytes (padded 12 (padded 5 width.toNat * padded 5 height.toNat)) d.toNat := by
  unfold NoWrap layoutBytes at h
  unfold layoutBytes
  have hsize : (align32 width.toUInt32 * align32 height.toUInt32).toNat =
      padded 5 width.toNat * padded 5 height.toNat % 2 ^ 32 := by
    rw [UInt32.toNat_mul, toNat_align32_length, toNat_align32_length]
  have hluma := toNat_alignPage (align32 width.toUInt32 * align32 height.toUInt32)
  have hchroma := toNat_alignPage (alignPage (align32 width.toUInt32 * align32 height.toUInt32) / d.toUInt32)
  rw [UInt32.toNat_div, UInt8.toNat_toUInt32] at hchroma
  generalize padded 5 width.toNat * padded 5 height.toNat = n at h hsize ⊢
  have h1 := le_padded 12 n
  have h2 := le_padded 12 (padded 12 n + 2 * padded 12 (padded 12 n / d.toNat))
  rw [hsize, Nat.mod_eq_of_lt (show n < 2 ^ 32 by omega),
    Nat.mod_eq_of_lt (show padded 12 n < 2 ^ 32 by omega)] at hluma
  rw [hluma, Nat.mod_eq_of_lt (show padded 12 (padded 12 n / d.toNat) < 2 ^ 32 by omega)] at hchroma
  unfold planeLayout
  dsimp only
  generalize alignPage (align32 width.toUInt32 * align32 height.toUInt32) = y at hluma hchroma ⊢
  generalize alignPage (y / d.toUInt32) = c at hchroma ⊢
  rw [← hchroma, ← hluma] at h h2 ⊢
  have hv : (y + c).toNat = y.toNat + c.toNat := by
    rw [UInt32.toNat_add, Nat.mod_eq_of_lt (by omega)]
  have ht : (y + c + c).toNat = y.toNat + 2 * c.toNat := by
    rw [UInt32.toNat_add, hv, Nat.mod_eq_of_lt (by omega)]
    omega
  refine ⟨rfl, hv, ?_⟩
  rw [toNat_alignPage, ht, Nat.mod_eq_of_lt h]

/-- A luma plane of `p` pages of 4096 bytes, and one more where `p` is odd. -/
theorem luma_pages (p : Nat) : padded 12 (4096 * p) = 4096 * (p + p % 2) := by
  unfold padded bitAt
  omega

/-- The chroma planes of an even number of pages. -/
theorem chroma_pages {p d : Nat} (hd : d = 1 ∨ d = 2 ∨ d = 4) :
    4096 ∣ padded 12 (4096 * (p + p % 2) / d) ↔ d = 4 → p % 4 = 0 ∨ p % 4 = 3 := by
  unfold padded bitAt
  rcases hd with rfl | rfl | rfl
  · omega
  · omega
  · omega

end Planes

/-- **When the layout is aligned as the decoder aligns it**, for every picture of a
supported format whose layout does not wrap: when both dimensions are multiples of 64,
and in 4:2:0 the number of squares of 64 is a multiple of 4, or one less. -/
theorem layout_aligned_iff {width height : UInt16} {format d : UInt8} {L : PlaneLayout}
    (hL : initLayout width.toUInt32 height.toUInt32 format = some L) (hd : subsamplingDivisor format = some d)
    (hwrap : NoWrap width.toNat height.toNat d.toNat) :
    Aligned width height L ↔ 64 ∣ width.toNat ∧ 64 ∣ height.toNat ∧
      (format = 0x22 → width.toNat / 64 * (height.toNat / 64) % 4 = 0 ∨
        width.toNat / 64 * (height.toNat / 64) % 4 = 3) := by
  obtain ⟨hcase, hfour⟩ : (d.toNat = 1 ∨ d.toNat = 2 ∨ d.toNat = 4) ∧ (d.toNat = 4 ↔ format = 0x22) := by
    unfold subsamplingDivisor at hd
    split_ifs at hd with h1 h2 h3
    · cases hd
      exact ⟨by decide, iff_of_true rfl h1⟩
    · cases hd
      exact ⟨by decide, iff_of_false (by decide) h1⟩
    · cases hd
      exact ⟨by decide, iff_of_false (by decide) h1⟩
  obtain rfl : planeLayout width.toUInt32 height.toUInt32 d = L := by
    rw [initLayout, hd, Option.map_some, Option.some.injEq] at hL
    exact hL
  obtain ⟨hu, hv, hb⟩ := toNat_planeLayout hwrap
  rw [← hfour]
  -- In whole 64s nothing is added to the dimensions.
  have pages (hw : 64 ∣ width.toNat) (hh : 64 ∣ height.toNat) :
      padded 5 width.toNat * padded 5 height.toNat = 4096 * (width.toNat / 64 * (height.toNat / 64)) := by
    have h1 : padded 5 width.toNat = 64 * (width.toNat / 64) := by
      unfold padded bitAt
      omega
    have h2 : padded 5 height.toNat = 64 * (height.toNat / 64) := by
      unfold padded bitAt
      omega
    rw [h1, h2]
    ring
  constructor
  · intro h
    have hw := align32_eq_lineStride.1 h.stride
    have hh := align32_eq_lineStride.1 h.rows
    refine ⟨hw, hh, ?_⟩
    have hvpage := h.vOffset
    rw [hv, pages hw hh, luma_pages] at hvpage
    exact (chroma_pages hcase).1 ((Nat.dvd_add_right (Nat.dvd_mul_right ..)).1 hvpage)
  · intro h
    obtain ⟨hw, hh, hp⟩ := h
    have hchroma := (chroma_pages hcase).2 hp
    rw [pages hw hh, luma_pages] at hu hv hb
    generalize width.toNat / 64 * (height.toNat / 64) = p at hu hv hb hchroma
    refine ⟨isLeast_align32 hw, isLeast_align32 hh, align32_eq_lineStride.2 hw, align32_eq_lineStride.2 hh, ?_, ?_, ?_⟩
    · rw [hu]
      exact Nat.dvd_mul_right ..
    · rw [hv]
      exact Nat.dvd_add (Nat.dvd_mul_right ..) hchroma
    · rw [hb]
      unfold layoutBytes
      obtain ⟨q, hq⟩ := hchroma
      rw [hq, show 4096 * (p + p % 2) + 2 * (4096 * q) = 4096 * (p + p % 2 + 2 * q) by ring, luma_pages]
      exact Nat.dvd_mul_right ..

/-- A picture of 640 by 384 pixels. -/
theorem layout_aligned_iff_sample : ∃ L, initLayout 640 384 0x22 = some L ∧ Aligned 640 384 L :=
  ⟨⟨245760, 311296, 376832⟩, by decide, (@layout_aligned_iff 640 384 0x22 4 ⟨245760, 311296, 376832⟩
    (by decide) (by decide) (by decide)).2 (by decide)⟩

/-- A picture of 1 by 1 pixels keeps its dimensions, and `init_display` rounds nothing up. -/
theorem not_layout_aligned :
    ¬ ∀ (width height : UInt16) (format d : UInt8) (L : PlaneLayout),
      initLayout width.toUInt32 height.toUInt32 format = some L → subsamplingDivisor format = some d →
        NoWrap width.toNat height.toNat d.toNat → 0 < width → 0 < height → Aligned width height L := by
  intro h
  have hs := (h 1 1 0x22 4 ⟨1, 1, 1⟩ (by decide) (by decide) (by decide) (by decide) (by decide)).stride
  exact absurd hs (by decide)

end Camview
