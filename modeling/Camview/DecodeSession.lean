/-
A session of `hw_decode_jpeg_main`: the buffers are sized by the first frame that
is accepted, and the registers are programmed from each frame's own header.

`session_geometry`: the two agree as long as every later frame that reaches the
engine has the first frame's dimensions and sampling factors. The parser and
`hw_decode_jpeg` do not see to it: `get_format` is consulted only before the
display is initialised.
-/
import Camview.Decode

namespace Camview.Hw

open Reader

/-- What the size of the buffers and the pixel format come from. -/
structure Geometry where
  width : UInt16
  height : UInt16
  sampH : UInt8
  sampV : UInt8
deriving DecidableEq, Repr

def geometry (jpeg : JpegT) : Geometry := ⟨jpeg.width, jpeg.height, (jpeg.comp 0).sampH, (jpeg.comp 0).sampV⟩

/-- `hw_decode_jpeg` can get to the start with a frame: nothing it divides by is
zero, and the tables it needs are there. -/
structure Startable (jpeg : JpegT) : Prop where
  sampH : (jpeg.comp 0).sampH ≠ 0
  sampV : (jpeg.comp 0).sampV ≠ 0
  quant0 : (jpeg.quant 0).isSome
  quant1 : (jpeg.quant 1).isSome

instance (jpeg : JpegT) : Decidable (Startable jpeg) :=
  decidable_of_iff ((jpeg.comp 0).sampH ≠ 0 ∧ (jpeg.comp 0).sampV ≠ 0 ∧ (jpeg.quant 0).isSome ∧ (jpeg.quant 1).isSome)
    ⟨fun h => ⟨h.1, h.2.1, h.2.2.1, h.2.2.2⟩, fun h => ⟨h.1, h.2, h.3, h.4⟩⟩

/-- The buffers of the display were laid out for a picture of this geometry. -/
def LaidOutFor (s : State) (jpeg : JpegT) : Prop := ∃ first, s.initFrame = some first ∧ geometry jpeg = geometry first

/-- Every frame the engine was started on has the geometry of the frame the
display was initialised with. -/
def SameGeometry (s : State) : Prop := ∀ d ∈ s.decoded, start ∈ d.2 → LaidOutFor s d.1

/-- A frame delivered after the display was initialised, if it is a JPEG the
engine can be started on and the buffer it gets has usable addresses, has the
geometry of the display. -/
def GeometryKept (s : State) (f : Frame) : Prop :=
  s.displayInitialized = true → ∀ jpeg, f.parse = some jpeg → Startable jpeg →
    (s.select f.bufferNumber).Usable → LaidOutFor s jpeg

/-! ## One frame -/

section Start

variable (mem : Nat → UInt8) (jpeg : JpegT)

theorem setQuantizationTables_isSome :
    ((setQuantizationTables jpeg).run mem).isSome ↔ (jpeg.quant 0).isSome ∧ (jpeg.quant 1).isSome := by
  unfold setQuantizationTables
  cases jpeg.quant 0 with
  | none => simp
  | some q0 =>
    cases jpeg.quant 1 with
    | none => simp
    | some q1 => simp

theorem setSize_isSome : (setSize jpeg).isSome ↔ (jpeg.comp 0).sampH ≠ 0 ∧ (jpeg.comp 0).sampV ≠ 0 := by
  unfold setSize
  split
  · next h => simpa using fun hh => h.resolve_right hh
  · next h => simpa [and_comm] using h

/-- When `hw_decode_jpeg` starts the engine. -/
theorem start_mem_iff (out : Output) (phyInput : UInt32) :
    (∃ accesses, (hwDecodeJpeg out phyInput jpeg).run mem = some accesses ∧ start ∈ accesses) ↔
      out.Usable ∧ Startable jpeg := by
  unfold hwDecodeJpeg
  by_cases hu : out.Usable
  · have hs : Startable jpeg ↔ (setSize jpeg).isSome ∧ ((setQuantizationTables jpeg).run mem).isSome := by
      rw [setSize_isSome, setQuantizationTables_isSome]
      exact ⟨fun h => ⟨⟨h.1, h.2⟩, h.3, h.4⟩, fun h => ⟨h.1.1, h.1.2, h.2.1, h.2.2⟩⟩
    rw [if_neg (not_not.2 hu), and_iff_right hu, hs]
    dsimp only
    cases setSize jpeg with
    | none => simp
    | some size =>
      dsimp only
      rw [run_bind]
      cases (setQuantizationTables jpeg).run mem with
      | none => simp
      | some quant => simp
  · rw [if_pos hu]
    refine iff_of_false ?_ fun h => hu h.1
    rintro ⟨accesses, h, hs⟩
    cases h
    cases hs

end Start

variable {f : Frame} {jpeg : JpegT} {s s' : State}

/-- A decode keeps the geometry of the session if it does not start the engine,
or starts it on a picture the buffers are laid out for. -/
theorem sameGeometry_decodeInto :
    SameGeometry (decodeInto f jpeg s) ↔
      SameGeometry s ∧ (Startable jpeg → (s.select f.bufferNumber).Usable → LaidOutFor s jpeg) := by
  have hstart := start_mem_iff f.data jpeg (s.select f.bufferNumber) f.phyInput
  cases hr : (hwDecodeJpeg (s.select f.bufferNumber) f.phyInput jpeg).run f.data with
  | none =>
    rw [decodeInto_none hr]
    refine (and_iff_left fun hj hu => ?_).symm
    obtain ⟨accesses, h, -⟩ := hstart.2 ⟨hu, hj⟩
    rw [hr] at h
    cases h
  | some accesses =>
    have hmem : start ∈ accesses ↔ Startable jpeg ∧ (s.select f.bufferNumber).Usable := by
      rw [and_comm, ← hstart, hr]
      simp
    rw [decodeInto_some hr]
    constructor
    · intro h
      refine ⟨fun d hd => h d (List.mem_append_left _ hd), fun hj hu => ?_⟩
      exact h (jpeg, accesses) (List.mem_append_right _ (List.mem_singleton_self _)) (hmem.2 ⟨hj, hu⟩)
    · rintro ⟨hs, hnew⟩ d hd hd2
      rcases List.mem_append.1 hd with hd | hd
      · exact hs d hd hd2
      · obtain rfl := List.mem_singleton.1 hd
        obtain ⟨hj, hu⟩ := hmem.1 hd2
        exact hnew hj hu

/-- Nothing is decoded before the display is initialised. -/
def Fresh (s : State) : Prop := s.displayInitialized = false → s.decoded = []

theorem fresh_main (h : Fresh s) : Fresh (hwDecodeJpegMain f s) := by
  have into (t : State) (jpeg : JpegT) (ht : t.displayInitialized = true) : Fresh (decodeInto f jpeg t) := by
    have hkept : (decodeInto f jpeg t).displayInitialized = true := by rw [decodeInto_displayInitialized, ht]
    exact fun hn => absurd (hkept.symm.trans hn) Bool.noConfusion
  unfold hwDecodeJpegMain
  split
  · exact h
  · next jpeg _ =>
    split
    · next hi => exact into s jpeg hi
    split
    · exact h
    split
    · exact h
    · exact into _ jpeg rfl

/-- One frame keeps the geometry of the session exactly if it has it. -/
theorem sameGeometry_main (hf : Fresh s) :
    SameGeometry (hwDecodeJpegMain f s) ↔ SameGeometry s ∧ GeometryKept s f := by
  unfold hwDecodeJpegMain GeometryKept
  cases f.parse with
  | none => simp
  | some jpeg =>
    dsimp only
    cases hi : s.displayInitialized with
    | true =>
      rw [if_pos rfl, sameGeometry_decodeInto]
      simp
    | false =>
      have hempty {t : State} (ht : t.decoded = []) : SameGeometry t := fun d hd => by
        rw [ht] at hd
        cases hd
      rw [if_neg Bool.noConfusion]
      refine iff_of_true ?_ ⟨hempty (hf hi), fun h => absurd h Bool.noConfusion⟩
      split
      · exact hempty (hf hi)
      split
      · exact hempty (hf hi)
      · -- The first frame is the one the buffers are laid out for.
        exact sameGeometry_decodeInto.2 ⟨hempty (hf hi), fun _ _ => ⟨jpeg, rfl, rfl⟩⟩

/-! ## A session -/

theorem reach_fresh (h : machine.Reach s) : Fresh s := by
  refine h.invariant (I := Fresh) (fun s (hi : machine.init s) _ => hi.2.2.2) fun s f s' _ hf hs => ?_
  simp only [machine, Option.ite_none_left_eq_some, Option.some.injEq] at hs
  exact hs.2 ▸ fresh_main hf

theorem sameGeometry_step (h : machine.Reach s) (hs : machine.step s f = some s') :
    SameGeometry s' ↔ SameGeometry s ∧ GeometryKept s f := by
  simp only [machine, Option.ite_none_left_eq_some, Option.some.injEq] at hs
  rw [← hs.2]
  exact sameGeometry_main (reach_fresh h)

/-- **The geometry of a session.** The frames the engine was started on all have
the dimensions and the sampling factors the buffers were laid out for in exactly
the sessions where every frame, when it was delivered, kept the geometry of the
display. -/
theorem session_geometry (s : State) : machine.Via GeometryKept s ↔ machine.Reach s ∧ SameGeometry s := by
  refine Machine.via_iff (fun s hi d hd => ?_) fun _ _ _ => sameGeometry_step
  rw [hi.2.2.2] at hd
  cases hd

/-- The bytes of a picture of one component, 16 rows high. -/
def pictureBytes (width : UInt8) : List UInt8 :=
  [0xff, mSoi] ++
    [0xff, mDqt, 0, 132] ++ 0 :: List.replicate 64 1 ++ 1 :: List.replicate 64 1 ++
    [0xff, mSof0, 0, 11, 8, 0, 16, 0, width, 1, 1, 0x11, 0] ++
    [0xff, mSos, 0, 8, 1, 1, 0, 0, 63, 0] ++ [0]

/-- A frame with these bytes, to be decoded to buffer `bufferNumber`. -/
def pictureFrame (width bufferNumber : UInt8) : Frame where
  data i := (pictureBytes width).getD i 0
  dataLen := (pictureBytes width).length
  unsetDivisor := 0
  displayFails := false
  dmaVaddr1 := 0xc1000000
  dmaVaddr2 := 0xc2000000
  dmaVaddr3 := 0xc3000000
  phyInput := 0x4000000
  bufferNumber := bufferNumber

/-- Before the first frame. -/
def initState : State where
  displayInitialized := false
  output1 := ⟨0, 0, 0⟩
  output2 := ⟨0, 0, 0⟩
  output3 := ⟨0, 0, 0⟩
  output := ⟨0, 0, 0⟩
  writeBuffer := 0
  phyInput := 0
  exited := false
  initFrame := none
  decoded := []

/-- The buffers are laid out for a picture 16 columns wide, and the engine is then
started on one 32 columns wide. -/
theorem not_session_geometry : ¬ ∀ s, machine.Reach s → SameGeometry s := by
  intro h
  obtain ⟨s, hs, hp⟩ := Machine.reach_of_exec (M := machine) (s := initState)
    [pictureFrame 16 2, pictureFrame 32 3]
    (fun s => s.decoded.any fun d => decide (start ∈ d.2) && (s.initFrame.map geometry != some (geometry d.1)))
    ⟨rfl, rfl, rfl, rfl⟩ (by decide +kernel)
  simp only [List.any_eq_true, Bool.and_eq_true, decide_eq_true_eq, bne_iff_ne] at hp
  obtain ⟨d, hd, hstart, hne⟩ := hp
  obtain ⟨first, hf, hg⟩ := h s hs d hd hstart
  rw [hf, hg] at hne
  exact hne rfl

end Camview.Hw
