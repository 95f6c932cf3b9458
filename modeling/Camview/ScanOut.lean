/-
Where a pixel is. `init_display` registers its three buffers as framebuffers, with
the pitches and the offsets of their planes; `hw_init_display` computes the
addresses of the same planes for the engine, and `hw_decode_jpeg` its line stride.

`scan_out_iff`: the planes start where the framebuffer has them, and the lines of
luma as well where the width is a multiple of 32: the pitch is not rounded up.
-/
import Camview.Divisions
import Mathlib.Data.Fin.VecNotation

namespace Camview.Hw

open Reader

/-! ## The framebuffers -/

/-- A framebuffer as `drmModeAddFB2` gets it. All its planes are in one of the buffers
`data`, `data2` and `data3`. -/
structure Framebuffer where
  width : UInt32
  height : UInt32
  pixelFormat : UInt32
  buffer : UInt8
  pitches : Fin 4 → UInt32
  offsets : Fin 4 → UInt32

/-- The framebuffers `init_display` adds, for the formats it supports; `old` is
`drm_mode_pixel_format` before. -/
def initFramebuffers (width height : UInt32) (format : UInt8) (old : UInt32) : Option (List Framebuffer) := do
  let L ← initLayout width height format
  let divisor ← chromaPitchesDivisor format
  let pitches := ![width, width / divisor, width / divisor, 0]
  let offsets := ![0, L.uOffset, L.vOffset, 0]
  pure ([1, 2, 3].map fun buffer => ⟨width, height, pixelFormat format old, buffer, pitches, offsets⟩)

/-- `dma_phy1`, `dma_phy2` and `dma_phy3`: where the engine has the first byte of a
buffer. -/
def Frame.dmaPhy (f : Frame) (buffer : UInt8) : UInt32 :=
  (if buffer = 2 then f.dmaVaddr2 else if buffer = 3 then f.dmaVaddr3 else f.dmaVaddr1) - 0xc0000000

/-- What is stored for sample (x, y) of the luma plane is stored at this byte of the
buffer, by an engine with the output `out` and lines of `stride`. -/
def storedAt (out : Output) (stride phy : UInt32) (x y : Nat) : Nat :=
  (out.luma - phy).toNat + y * stride.toNat + x

/-- And read from this one. -/
def Framebuffer.readAt (fb : Framebuffer) (x y : Nat) : Nat :=
  (fb.offsets 0).toNat + y * (fb.pitches 0).toNat + x

/-- The engine stores a picture in a buffer where the framebuffer has it. -/
structure SamePlaces (f : Frame) (jpeg : JpegT) (s : State) (fb : Framebuffer) : Prop where
  luma : ∀ x y, x < jpeg.width.toNat → y < jpeg.height.toNat →
    storedAt (s.select fb.buffer) (lineStride jpeg.width) (f.dmaPhy fb.buffer) x y = fb.readAt x y
  chromaU : (s.select fb.buffer).chromaU - f.dmaPhy fb.buffer = fb.offsets 1
  chromaV : (s.select fb.buffer).chromaU + (s.select fb.buffer).vOffset.toUInt32 - f.dmaPhy fb.buffer = fb.offsets 2
  /-- What the engine is started with. -/
  programmed : ∀ mem phyInput accesses, (hwDecodeJpeg (s.select fb.buffer) phyInput jpeg).run mem = some accesses →
    start ∈ accesses →
      [.writel (lineStride jpeg.width ||| lineStride jpeg.width <<< 16) 0xc8,
        .writel (s.select fb.buffer).luma veMpegRotLuma,
        .writel (s.select fb.buffer).chromaU veMpegRotChroma,
        .writel ((s.select fb.buffer).vOffset.toUInt32 ||| (0x2 : UInt32) <<< 30) 0xe8] ⊆ accesses

/-! ## The registers -/

theorem hwDecodeJpeg_programs {out : Output} {phyInput : UInt32} {jpeg : JpegT} {mem : Nat → UInt8}
    {accesses : List Access} (h : (hwDecodeJpeg out phyInput jpeg).run mem = some accesses) (hs : start ∈ accesses) :
    [.writel (lineStride jpeg.width ||| lineStride jpeg.width <<< 16) 0xc8, .writel out.luma veMpegRotLuma,
      .writel out.chromaU veMpegRotChroma, .writel (out.vOffset.toUInt32 ||| (0x2 : UInt32) <<< 30) 0xe8] ⊆
        accesses := by
  unfold hwDecodeJpeg at h
  split at h
  · cases h
    exact absurd hs List.not_mem_nil
  · dsimp only at h
    split at h
    · cases h
    · rw [run_bind] at h
      split at h
      · cases h
      · rw [run_bind, run_pure, Option.some.injEq] at h
        rw [← h]
        intro a ha
        simp only [List.mem_cons, List.not_mem_nil, or_false] at ha
        simp only [List.mem_append, List.mem_cons, List.not_mem_nil, or_false]
        rcases ha with rfl | rfl | rfl | rfl
        all_goals simp

/-! ## The planes -/

section Planes

variable {f : Frame} {jpeg : JpegT} {s : State}

/-- The outputs of a buffer are those of the layout, from its first byte on. -/
theorem select_hwInitDisplay (buffer : UInt8) (L : PlaneLayout) (hL : displayLayout f jpeg = L) :
    (hwInitDisplay f jpeg s).select buffer =
      ⟨f.dmaPhy buffer, f.dmaPhy buffer + L.uOffset, f.dmaPhy buffer + L.vOffset⟩ := by
  unfold State.select Frame.dmaPhy hwInitDisplay
  rw [hL]
  dsimp only
  split
  · rfl
  split
  · rfl
  · rfl

theorem select_decodeInto (buffer : UInt8) : (decodeInto f jpeg s).select buffer = s.select buffer := by
  unfold decodeInto
  dsimp only
  split
  · rfl
  · rfl

/-- The first frame leaves the outputs as `hw_init_display` computed them. -/
theorem select_main (hs : s.displayInitialized = false) (hp : f.parse = some jpeg) (h0 : getFormat jpeg ≠ 0)
    (hd : f.displayFails = false) (buffer : UInt8) :
    (hwDecodeJpegMain f s).select buffer = (hwInitDisplay f jpeg s).select buffer := by
  unfold hwDecodeJpegMain
  rw [hp]
  dsimp only
  rw [hs, hd, if_neg Bool.noConfusion, if_neg h0, if_neg Bool.noConfusion, select_decodeInto]

/-- Lines of different lengths start apart, from the second on. -/
theorem lines_agree_iff {width height stride : Nat} (hle : width ≤ stride) :
    (∀ x y, x < width → y < height → y * stride + x = y * width + x) ↔ width = 0 ∨ stride = width ∨ height ≤ 1 := by
  constructor
  · intro h
    by_contra hne
    obtain ⟨h0, h1, h2⟩ : width ≠ 0 ∧ stride ≠ width ∧ 1 < height := by omega
    have := h 0 1 (Nat.pos_of_ne_zero h0) h2
    omega
  · intro h x y hx hy
    rcases h with h | h | h
    · omega
    · rw [h]
    · rw [show y = 0 by omega, Nat.zero_mul, Nat.zero_mul]

theorem ceilTo_eq_self {n : Nat} : ceilTo 5 n = n ↔ 32 ∣ n := by
  unfold ceilTo
  omega

/-- In a buffer laid out for the picture, only the lines of luma may be apart. -/
theorem samePlaces_iff {L : PlaneLayout} {fb : Framebuffer} (hs : s.displayInitialized = false)
    (hp : f.parse = some jpeg) (h0 : getFormat jpeg ≠ 0) (hd : f.displayFails = false) (hL : displayLayout f jpeg = L)
    (hpitch : fb.pitches 0 = jpeg.width.toUInt32) (ho0 : fb.offsets 0 = 0) (ho1 : fb.offsets 1 = L.uOffset)
    (ho2 : fb.offsets 2 = L.vOffset) :
    SamePlaces f jpeg (hwDecodeJpegMain f s) fb ↔ 32 ∣ jpeg.width.toNat ∨ jpeg.height.toNat ≤ 1 := by
  have hselect := (select_main hs hp h0 hd fb.buffer).trans (select_hwInitDisplay fb.buffer L hL)
  have hlines : (∀ x y, x < jpeg.width.toNat → y < jpeg.height.toNat →
      storedAt ((hwDecodeJpegMain f s).select fb.buffer) (lineStride jpeg.width) (f.dmaPhy fb.buffer) x y =
        fb.readAt x y) ↔ 32 ∣ jpeg.width.toNat ∨ jpeg.height.toNat ≤ 1 := by
    unfold storedAt Framebuffer.readAt
    rw [hselect, hpitch, ho0, toNat_lineStride, UInt16.toNat_toUInt32, UInt32.sub_self]
    simp only [UInt32.toNat_zero, Nat.zero_add]
    rw [lines_agree_iff (le_ceilTo 5 jpeg.width.toNat), ceilTo_eq_self]
    constructor
    · intro h
      rcases h with h | h
      · exact .inl (h ▸ Nat.dvd_zero 32)
      · exact h
    · exact .inr
  constructor
  · exact fun h => hlines.1 h.luma
  · intro h
    refine ⟨hlines.2 h, ?_, ?_, fun mem phyInput accesses => hwDecodeJpeg_programs⟩
    · rw [hselect, ho1]
      show f.dmaPhy fb.buffer + L.uOffset - f.dmaPhy fb.buffer = L.uOffset
      rw [UInt32.add_comm, UInt32.add_sub_cancel]
    · rw [hselect, ho2]
      unfold Output.vOffset
      rw [UInt32.toUInt32_toInt32, UInt32.add_comm, UInt32.sub_add_cancel]
      show f.dmaPhy fb.buffer + L.vOffset - f.dmaPhy fb.buffer = L.vOffset
      rw [UInt32.add_comm, UInt32.add_sub_cancel]

/-- The framebuffers there are for a first frame of a supported format. -/
theorem forall_initFramebuffers (hs : s.displayInitialized = false) (hp : f.parse = some jpeg)
    (hf : getFormat jpeg ∈ [0x11, 0x21, 0x22]) (hd : f.displayFails = false) (old : UInt32) :
    ∃ fbs, initFramebuffers jpeg.width.toUInt32 jpeg.height.toUInt32 (getFormat jpeg) old = some fbs ∧
      fbs.map Framebuffer.buffer = [1, 2, 3] ∧
      ∀ fb ∈ fbs, (SamePlaces f jpeg (hwDecodeJpegMain f s) fb ↔ 32 ∣ jpeg.width.toNat ∨ jpeg.height.toNat ≤ 1) := by
  obtain ⟨h0, L, divisor, hL, hdiv⟩ : getFormat jpeg ≠ 0 ∧ ∃ L divisor,
      initLayout jpeg.width.toUInt32 jpeg.height.toUInt32 (getFormat jpeg) = some L ∧
        chromaPitchesDivisor (getFormat jpeg) = some divisor := by
    generalize getFormat jpeg = format at hf
    simp only [List.mem_cons, List.not_mem_nil, or_false] at hf
    rcases hf with rfl | rfl | rfl
    all_goals exact ⟨by decide, _, _, rfl, rfl⟩
  have hlayout : displayLayout f jpeg = L := by
    rw [displayLayout, hL, Option.getD_some]
  refine ⟨_, by rw [initFramebuffers, hL, hdiv]; rfl, rfl, ?_⟩
  intro fb hfb
  obtain ⟨buffer, -, rfl⟩ := List.mem_map.1 hfb
  exact samePlaces_iff hs hp h0 hd hlayout rfl rfl rfl rfl

end Planes

/-- **Where the pixels are**, for every first frame of a supported format: the engine
stores them where the framebuffers have them exactly if the width is a multiple of
32, or there is no second line. -/
theorem scan_out_iff {f : Frame} {jpeg : JpegT} {s : State} (hs : s.displayInitialized = false)
    (hp : f.parse = some jpeg) (hf : getFormat jpeg ∈ [0x11, 0x21, 0x22]) (hd : f.displayFails = false) (old : UInt32) :
    ∃ fbs, initFramebuffers jpeg.width.toUInt32 jpeg.height.toUInt32 (getFormat jpeg) old = some fbs ∧
      fbs.map Framebuffer.buffer = [1, 2, 3] ∧
      ((∀ fb ∈ fbs, SamePlaces f jpeg (hwDecodeJpegMain f s) fb) ↔ 32 ∣ jpeg.width.toNat ∨ jpeg.height.toNat ≤ 1) := by
  obtain ⟨fbs, hfbs, hbuffers, h⟩ := forall_initFramebuffers hs hp hf hd old
  refine ⟨fbs, hfbs, hbuffers, ?_, fun hc fb hfb => (h fb hfb).2 hc⟩
  intro hall
  have hne : fbs ≠ [] := by
    rintro rfl
    cases hbuffers
  have hhead := List.head_mem hne
  exact (h _ hhead).1 (hall _ hhead)

/-- The sample picture, 16 rows of YUV444. -/
theorem parse_pictureFrame (width : UInt8) (h : width = 16 ∨ width = 32) :
    ∃ jpeg, (pictureFrame width 2).parse = some jpeg ∧ getFormat jpeg = 0x11 ∧ jpeg.width = width.toUInt16 ∧
      jpeg.height = 16 := by
  have hmap : ((pictureFrame width 2).parse.map fun jpeg => (getFormat jpeg, jpeg.width, jpeg.height)) =
      some (0x11, width.toUInt16, 16) := by
    rcases h with rfl | rfl
    · decide +kernel
    · decide +kernel
  obtain ⟨jpeg, hp, he⟩ := Option.map_eq_some_iff.1 hmap
  simp only [Prod.mk.injEq] at he
  exact ⟨jpeg, hp, he⟩

/-- In lines of 32 samples. -/
theorem scan_out_iff_sample : ∃ jpeg fbs, (pictureFrame 32 2).parse = some jpeg ∧
    initFramebuffers jpeg.width.toUInt32 jpeg.height.toUInt32 (getFormat jpeg) 0 = some fbs ∧
    ∀ fb ∈ fbs, SamePlaces (pictureFrame 32 2) jpeg (hwDecodeJpegMain (pictureFrame 32 2) initState) fb := by
  obtain ⟨jpeg, hp, hf, hw, -⟩ := parse_pictureFrame 32 (.inr rfl)
  obtain ⟨fbs, hfbs, -, h⟩ := scan_out_iff (s := initState) rfl hp (by rw [hf]; decide) rfl 0
  exact ⟨jpeg, fbs, hp, hfbs, h.2 (.inl (by rw [hw]; decide))⟩

/-- In lines of 16 samples the second one is stored from byte 32 on, and read from
byte 16 on. -/
theorem not_scan_out : ¬ ∀ (f : Frame) (jpeg : JpegT) (s : State) (old : UInt32) (fbs : List Framebuffer),
    s.displayInitialized = false → f.parse = some jpeg → getFormat jpeg ∈ [0x11, 0x21, 0x22] → f.displayFails = false →
      initFramebuffers jpeg.width.toUInt32 jpeg.height.toUInt32 (getFormat jpeg) old = some fbs →
        ∀ fb ∈ fbs, SamePlaces f jpeg (hwDecodeJpegMain f s) fb := by
  intro h
  obtain ⟨jpeg, hp, hf, hw, hh⟩ := parse_pictureFrame 16 (.inl rfl)
  have hformat : getFormat jpeg ∈ [0x11, 0x21, 0x22] := by
    rw [hf]
    decide
  obtain ⟨fbs, hfbs, hbuffers, hiff⟩ := forall_initFramebuffers (s := initState) rfl hp hformat rfl 0
  have hne : fbs ≠ [] := by
    rintro rfl
    cases hbuffers
  have hhead := List.head_mem hne
  have hc := (hiff _ hhead).1 (h _ jpeg initState 0 fbs rfl hp hformat rfl hfbs _ hhead)
  rw [hw, hh] at hc
  exact absurd hc (by decide)

end Camview.Hw
