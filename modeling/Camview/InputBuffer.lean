/-
The buffer compressed data is copied to. `hw_init` allocates three bytes for each
pixel of the negotiated picture size, rounded up to 64 KiB, and does not look at
what it gets; `hw_decode_jpeg_main` copies as many bytes as the frame has, and
`hw_decode_jpeg` has the engine read up to the next multiple of 64 KiB.

`input_inside_iff`: the copy and the window of the engine are inside the allocation
as long as there is one and the frame is not longer than it. Both sizes are
multiples of 64 KiB, so the rounding asks for nothing more.
-/
import Camview.TableSelection
import Camview.VeBestFit
import Camview.VeTranslate

namespace Camview.Hw

open Reader
open Ve (Mmap Mapping Process BestFit MapsAt bytes newMapping veMalloc veVirt2phys roundUp)

/-! ## hw_init -/

/-- `input_size` of `hw_init`. -/
def inputSize (width height : Int32) : Int32 := (width * height * 3 + 65535) &&& ~~~65535

/-- `hw_init`: `input_buffer`, and what becomes of the allocator. -/
def hwInit (mmap : Mmap) (width height : Int32) (ve : Ve.State) : Nat × Ve.State :=
  veMalloc mmap (inputSize width height) true ve

/-- No step of `width * height * 3 + 65535` leaves the range of `int`. -/
def NoOverflow (width height : Int32) : Prop :=
  ∀ x ∈ [width.toInt * height.toInt, width.toInt * height.toInt * 3, width.toInt * height.toInt * 3 + 65535],
    -2 ^ 31 ≤ x ∧ x < 2 ^ 31

/-- The frame, when `ve_virt2phys` is asked for the input buffer. -/
def Frame.withInput (f : Frame) (input : Nat × Ve.State) : Frame := { f with phyInput := veVirt2phys input.1 input.2 }

/-! ## The copy and the window -/

/-- What is copied of a frame, and what the engine is told to read, is inside the
mapping `m`. -/
structure CopyInside (m : Mapping) (input : Nat × Ve.State) (s : State) (f : Frame) (jpeg : JpegT) : Prop where
  copied : ∀ k < jpeg.dataLen.toNat, input.1 + k ∈ m.range
  window : ∀ accesses last,
    (hwDecodeJpegMain (f.withInput input) s).decoded = s.decoded ++ [(jpeg, accesses)] →
    .writel last veMpegVldEnd ∈ accesses → ∀ k < (last + 1 - veVirt2phys input.1 input.2).toNat,
      ∃ j < bytes m.size, veVirt2phys input.1 input.2 + UInt32.ofNat k = m.phys + UInt32.ofNat j

/-- The size of the buffer is computed without overflow, and if the frame is copied,
it is to the mapping that `hw_init` made, inside of it. -/
structure InputInside (mmap : Mmap) (width height : Int32) (p : Process) (s : State) (f : Frame) : Prop where
  size : NoOverflow width height
  frame : ∀ jpeg, Passed s f jpeg → ∃ m, newMapping mmap (inputSize width height) true p.clients.ve = some m ∧
    CopyInside m (hwInit mmap width height p.clients.ve) s f jpeg

/-- Three bytes a pixel are in the range of `int` with what the rounding adds; and if
the frame is copied, there is a best fit for the buffer, `mmap` maps it, and the
buffer is not shorter than the scan data. -/
structure InputFits (mmap : Mmap) (width height : Int32) (p : Process) (s : State) (f : Frame) : Prop where
  size : -2 ^ 31 ≤ 3 * width.toInt * height.toInt ∧ 3 * width.toInt * height.toInt + 65535 < 2 ^ 31
  frame : ∀ jpeg, Passed s f jpeg →
    (∃ pre b post addr, p.clients.ve.memchunks = pre ++ b :: post ∧ BestFit (inputSize width height) pre b post ∧
      MapsAt mmap (inputSize width height) true b addr) ∧
    (jpeg.dataLen.toNat : Int) ≤ (3 * width.toInt * height.toInt + 65535) / 65536 * 65536

/-! ## The size of the buffer -/

variable {width height : Int32}

theorem noOverflow_iff : NoOverflow width height ↔
    -2 ^ 31 ≤ 3 * width.toInt * height.toInt ∧ 3 * width.toInt * height.toInt + 65535 < 2 ^ 31 := by
  unfold NoOverflow
  rw [show 3 * width.toInt * height.toInt = width.toInt * height.toInt * 3 by ring]
  generalize width.toInt * height.toInt = x
  simp only [List.forall_mem_cons, List.not_mem_nil, false_implies, implies_true, and_true]
  omega

theorem toInt_inputSize (h : NoOverflow width height) :
    (inputSize width height).toInt = (3 * width.toInt * height.toInt + 65535) / 65536 * 65536 := by
  have hpixels : (width * height).toInt = width.toInt * height.toInt := by
    have hr := h _ (List.mem_cons_self ..)
    rw [Int32.toInt_mul, Int.bmod_eq_of_le (by omega) (by omega)]
  have hbytes : (width * height * 3).toInt = width.toInt * height.toInt * 3 := by
    have hr := h (width.toInt * height.toInt * 3) (by simp)
    rw [Int32.toInt_mul, hpixels]
    exact Int.bmod_eq_of_le hr.1 hr.2
  have hsum : (width * height * 3 + 65535).toInt = width.toInt * height.toInt * 3 + 65535 := by
    have hr := h (width.toInt * height.toInt * 3 + 65535) (by simp)
    rw [Int32.toInt_add, hbytes]
    exact Int.bmod_eq_of_le hr.1 hr.2
  have hmask := toInt_and_not_mask (width * height * 3 + 65535).toBitVec (65535 : Int32).toBitVec
    (k := 16) (by decide) rfl
  rw [show (width * height * 3 + 65535).toBitVec.toInt = width.toInt * height.toInt * 3 + 65535 from hsum] at hmask
  rw [show 3 * width.toInt * height.toInt = width.toInt * height.toInt * 3 by ring]
  exact hmask

theorem roundUp_inputSize (h : NoOverflow width height) :
    roundUp (inputSize width height) = inputSize width height := by
  have hrange := noOverflow_iff.1 h
  have hsize := toInt_inputSize h
  rw [← Int32.toInt_inj, Ve.toInt_roundUp (by omega)]
  omega

/-! ## The mapping of the buffer -/

variable {mmap : Mmap} {info : Ve.VeInfo} {p : Process} {s : State} {f : Frame} {jpeg : JpegT}

/-- `ve_malloc` maps the best fit. -/
theorem newMapping_eq_some {size : Int32} {write : Bool} {ve : Ve.State} {m : Mapping} (hfd : ve.fd ≠ -1) :
    newMapping mmap size write ve = some m ↔ ∃ pre b post addr, ve.memchunks = pre ++ b :: post ∧
      BestFit (roundUp size) pre b post ∧ MapsAt mmap (roundUp size) write b addr ∧
        ⟨addr, roundUp size, b.physAddr⟩ = m := by
  unfold newMapping
  rw [if_neg hfd]
  constructor
  · intro h
    have hspec := Ve.bestChunk_spec (roundUp size) ve.memchunks
    rcases hb : Ve.bestChunk (roundUp size) ve.memchunks 0 none with - | ⟨i, b⟩
    · rw [hb] at h
      cases h
    · rw [hb] at h hspec
      obtain ⟨pre, post, he, -, hbest⟩ := hspec
      dsimp only at h
      rcases hm : mmap (roundUp size) write (b.physAddr + Ve.pageOffset) with - | - | addr
      · rw [hm] at h
        cases h
      · rw [hm] at h
        cases h
      · rw [hm] at h
        exact ⟨pre, b, post, addr + 1, he, hbest, ⟨Nat.succ_ne_zero addr, hm⟩, Option.some.inj h⟩
  · rintro ⟨pre, b, post, addr, he, hbest, ⟨h0, hmap⟩, rfl⟩
    rw [he, Ve.bestChunk_eq hbest]
    dsimp only
    rw [hmap]
    cases addr with
    | zero => exact absurd rfl h0
    | succ addr => rfl

/-- The mapping `hw_init` makes is at `input_buffer`, and `ve_virt2phys` gives its
physical base. -/
theorem hwInit_mapping (hp : (Ve.process info).Via Ve.MappedApart p)
    (hm : Ve.MappedApart p (.malloc mmap (inputSize width height) true)) {m : Mapping}
    (h : newMapping mmap (inputSize width height) true p.clients.ve = some m) :
    m.size = roundUp (inputSize width height) ∧ 0 < m.size ∧ (hwInit mmap width height p.clients.ve).1 = m.virt ∧
      veVirt2phys m.virt (hwInit mmap width height p.clients.ve).2 = m.phys := by
  rcases Ve.veMalloc_newMapping mmap (inputSize width height) true p.clients.ve with
    ⟨hn, -⟩ | ⟨pre, b, post, addr, he, hf, h0, hmap, hn, hv⟩
  · rw [hn] at h
    cases h
  rw [hn] at h
  cases h
  have hsize := (hm _ _ _ _ hmap).1
  have htracks := Ve.via_tracks (hp.next hm (rfl : (Ve.process info).step p _ = some _))
  have hbase := htracks.veVirt2phys_eq (m := ⟨addr, roundUp (inputSize width height), b.physAddr⟩) (o := 0)
    (List.mem_append_left _ (by rw [hn]; exact List.mem_singleton_self _)) (Ve.bytes_pos.2 hsize)
  refine ⟨rfl, hsize, by rw [hwInit, hv], ?_⟩
  rw [show UInt32.ofNat 0 = 0 from rfl, UInt32.add_zero] at hbase
  exact hbase

/-! ## The window of the engine -/

/-- The end of the window a decode programs. -/
theorem vldEnd_of_decode {mem : Nat → UInt8} {out : Output} {phyInput last : UInt32} {accesses : List Access}
    (h : (hwDecodeJpeg out phyInput jpeg).run mem = some accesses) (hmem : .writel last veMpegVldEnd ∈ accesses) :
    last = phyInput + ((jpeg.dataLen + 65535) &&& ~~~65535) - 1 := by
  have hfilter : .writel last veMpegVldEnd ∈ accesses.filter (Access.isWriteTo veMpegVldEnd) :=
    List.mem_filter.2 ⟨hmem, beq_self_eq_true _⟩
  rw [hwDecodeJpeg] at h
  split at h
  · cases h
    exact absurd hmem List.not_mem_nil
  dsimp only at h
  cases hsize : setSize jpeg with
  | none =>
    rw [hsize] at h
    cases h
  | some size =>
    rw [hsize] at h
    dsimp only at h
    rw [run_bind] at h
    cases hquant : (setQuantizationTables jpeg).run mem with
    | none =>
      rw [hquant] at h
      cases h
    | some quant =>
      rw [hquant] at h
      dsimp only at h
      rw [run_bind, run_pure, Option.some.injEq] at h
      have hcoeffs : quant.filter (Access.isWriteTo veMpegVldEnd) = [] := by
        obtain ⟨p0, p1, -, -, rfl⟩ := setQuantizationTables_eq_some.1 hquant
        rw [List.filter_append, filter_coeffAccesses_ne (by decide), filter_coeffAccesses_ne (by decide),
          List.append_nil]
      rw [← h] at hfilter
      simp only [List.filter_append, filter_setFormat, hcoeffs,
        filter_setSize (show veMpegVldEnd ≠ veMpegJpegSize by decide) hsize,
        filter_setHuffmanTables (show veMpegVldEnd ≠ veMpegRamWriteData by decide)] at hfilter
      have hone : .writel last veMpegVldEnd ∈
          [Access.writel (phyInput + ((jpeg.dataLen + 65535) &&& ~~~65535) - 1) veMpegVldEnd] := hfilter
      exact (Access.writel.inj (List.mem_singleton.1 hone)).1

theorem toNat_window (phyInput : UInt32) (len : UInt32) :
    (phyInput + ((len + 65535) &&& ~~~65535) - 1 + 1 - phyInput).toNat = ((len + 65535) &&& ~~~65535).toNat := by
  rw [UInt32.sub_add_cancel, UInt32.add_comm, UInt32.add_sub_cancel]

/-- What is copied is inside a mapping of a multiple of 64 KiB iff it is not longer;
then what the engine reads is inside, too. -/
theorem copyInside_iff {m : Mapping} {input : Nat × Ve.State} (hv : input.1 = m.virt)
    (hphys : veVirt2phys input.1 input.2 = m.phys) {n : Nat} (hsize : bytes m.size = 65536 * n) (h : Passed s f jpeg) :
    CopyInside m input s f jpeg ↔ jpeg.dataLen.toNat ≤ bytes m.size := by
  constructor
  · intro hin
    by_contra hlt
    have hout := (hin.copied (bytes m.size) (Nat.not_le.1 hlt)).2
    rw [hv] at hout
    exact Nat.lt_irrefl _ hout
  · intro hle
    refine ⟨?_, ?_⟩
    · intro k hk
      rw [hv]
      exact ⟨Nat.le_add_right _ _, Nat.add_lt_add_left (hk.trans_le hle) _⟩
    · intro accesses last hdecoded hmem k hk
      have h' : Passed s (f.withInput input) jpeg := ⟨h.parsed, h.display⟩
      have hlt := Ve.bytes_lt m.size
      have hread : ((jpeg.dataLen + 65535) &&& ~~~65535).toNat = ceilTo 16 jpeg.dataLen.toNat :=
        toNat_ceilTo jpeg.dataLen.toBitVec 65535 rfl (show jpeg.dataLen.toNat + 65535 < 2 ^ 32 by omega)
      rw [vldEnd_of_decode ((decoded_of_passed h').1 hdecoded) hmem] at hk
      have hk' : k < ceilTo 16 jpeg.dataLen.toNat := by rwa [← hread, ← toNat_window (veVirt2phys input.1 input.2)]
      refine ⟨k, ?_, by rw [hphys]⟩
      -- Both sides of the comparison are multiples of 64 KiB.
      unfold ceilTo at hk'
      omega

/-! ## The buffer -/

/-- **When the compressed data fits the input buffer.** For every size of picture, in
every state of the allocator, and for every frame in every state of the decoder: the
size of the buffer is computed without overflow, and the copy and the window of the
engine are inside the mapping that `hw_init` made, exactly when `InputFits`. -/
theorem input_inside_iff (hp : (Ve.process info).Via Ve.MappedApart p)
    (hm : Ve.MappedApart p (.malloc mmap (inputSize width height) true)) :
    InputInside mmap width height p s f ↔ InputFits mmap width height p s f := by
  have hopened := (Ve.via_sound (Ve.via_tracks hp).run).opened
  -- For a frame that is copied.
  have hframe (hno : NoOverflow width height) {jpeg : JpegT} (h : Passed s f jpeg) {m : Mapping}
      (hmap : newMapping mmap (inputSize width height) true p.clients.ve = some m) :
      CopyInside m (hwInit mmap width height p.clients.ve) s f jpeg ↔
        (jpeg.dataLen.toNat : Int) ≤ (3 * width.toInt * height.toInt + 65535) / 65536 * 65536 := by
    obtain ⟨hsize, hpos, hv, hphys⟩ := hwInit_mapping hp hm hmap
    have hint := toInt_inputSize hno
    rw [← roundUp_inputSize hno, ← hsize] at hint
    rw [Int32.lt_iff_toInt_lt, Int32.toInt_zero] at hpos
    have hbytes : bytes m.size = m.size.toInt.toNat := rfl
    rw [copyInside_iff hv (hv ▸ hphys) (n := ((3 * width.toInt * height.toInt + 65535) / 65536).toNat) (by omega) h]
    omega
  constructor
  · intro hin
    have hno := hin.size
    refine ⟨noOverflow_iff.1 hno, ?_⟩
    intro jpeg h
    obtain ⟨m, hmap, hcopy⟩ := hin.frame jpeg h
    refine ⟨?_, (hframe hno h hmap).1 hcopy⟩
    obtain ⟨pre, b, post, addr, he, hbest, haddr, -⟩ := (newMapping_eq_some hopened).1 hmap
    rw [roundUp_inputSize hno] at hbest haddr
    exact ⟨pre, b, post, addr, he, hbest, haddr⟩
  · intro hfits
    have hno := noOverflow_iff.2 hfits.size
    refine ⟨hno, ?_⟩
    intro jpeg h
    obtain ⟨⟨pre, b, post, addr, he, hbest, haddr⟩, hle⟩ := hfits.frame jpeg h
    rw [← roundUp_inputSize hno] at hbest haddr
    have hmap : newMapping mmap (inputSize width height) true p.clients.ve =
        some ⟨addr, roundUp (inputSize width height), b.physAddr⟩ :=
      (newMapping_eq_some hopened).2 ⟨pre, b, post, addr, he, hbest, haddr, rfl⟩
    exact ⟨_, hmap, (hframe hno h hmap).2 hle⟩

/-- A device with 1 MiB, all of it free. -/
def freshProcess : Process := ⟨⟨⟨3, [⟨0x3000000, 0x100000, 0⟩]⟩, []⟩, []⟩

/-- A buffer for 16 by 16 pixels holds the sample picture. -/
theorem input_inside_iff_sample : InputInside (Ve.mapAt 0x10000) 16 16 freshProcess initState (pictureFrame 16 2) := by
  have hp : (Ve.process ⟨0xc3000000, 0x100000⟩).Via Ve.MappedApart freshProcess :=
    .start ⟨⟨3, some 0x1000, rfl, rfl⟩, rfl⟩
  have hm : Ve.MappedApart freshProcess (.malloc (Ve.mapAt 0x10000) (inputSize 16 16) true) := by
    intro size _ _ a ha
    obtain ⟨hsize, rfl⟩ : 0 < size ∧ 0x10000 = a := by simpa [Ve.mapAt] using ha
    exact ⟨hsize, by decide, fun m h => absurd h List.not_mem_nil⟩
  refine (input_inside_iff hp hm).2 ⟨by decide, ?_⟩
  intro jpeg h
  have hlen : (pictureFrame 16 2).parse.all (·.dataLen = 1) = true := by decide +kernel
  have hone : jpeg.dataLen = 1 := of_decide_eq_true (Option.all_eq_true _ _ |>.1 hlen jpeg h.parsed)
  refine ⟨⟨[], ⟨0x3000000, 0x100000, 0⟩, [], 0x10000, rfl, ?_, by decide, rfl⟩, by rw [hone]; decide⟩
  exact ⟨by decide, fun c hc => absurd hc List.not_mem_nil, fun c hc => absurd hc List.not_mem_nil⟩

/-- The sample picture with 70000 bytes. -/
def longFrame : Frame := { pictureFrame 16 2 with dataLen := 70000 }

/-- More of it than 64 KiB is copied to a buffer for 16 by 16 pixels; and three bytes
for each of 30000 by 30000 pixels are more than an `int` holds. -/
theorem not_input_inside :
    ¬ InputInside (Ve.mapAt 0x10000) 16 16 freshProcess initState longFrame ∧ ¬ NoOverflow 30000 30000 := by
  refine ⟨?_, ?_⟩
  · intro hin
    have hsome : longFrame.parse.any (fun jpeg => getFormat jpeg ≠ 0 ∧ 65536 < jpeg.dataLen.toNat) = true := by
      decide +kernel
    obtain ⟨jpeg, hparse, h⟩ := (Option.any_eq_true _ _).1 hsome
    obtain ⟨hformat, hlong⟩ := of_decide_eq_true h
    obtain ⟨m, hmap, hcopy⟩ := hin.frame jpeg ⟨hparse, .inr ⟨hformat, rfl⟩⟩
    have hm : m = ⟨0x10000, 0x10000, 0x3000000⟩ := by
      have hrun : newMapping (Ve.mapAt 0x10000) (inputSize 16 16) true freshProcess.clients.ve =
          some ⟨0x10000, 0x10000, 0x3000000⟩ := by decide
      exact Option.some.inj (hmap.symm.trans hrun)
    have hout := (hcopy.copied 65536 hlong).2
    rw [hm] at hout
    exact absurd hout (by decide)
  · intro h
    exact absurd (h 2700065535 (by decide)).2 (by decide)

end Camview.Hw
