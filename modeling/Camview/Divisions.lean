/-
What a session divides by. `init_display` divides the size of a plane by
`subsampling_divisor` and twice the width by `chroma_pitches_divisor`, which it sets
for three formats; `get_format` lets a fourth one pass. Before that it looks for a
plane that shows `drm_mode_pixel_format`, which for the fourth format is still that
of the session before. `set_size` divides by the sampling factors of each frame.

`session_divisors`: the divisors of a session are all set and not zero as long as
each frame, when it is delivered, meets `DivisorsSet`.
-/
import Camview.DecodeSession
import Camview.JpegGrammar

namespace Camview.Hw

open Reader

/-! ## init_display -/

/-- `chroma_pitches_divisor`, which stays unset for other formats. -/
def chromaPitchesDivisor (format : UInt8) : Option UInt32 :=
  if format = 0x22 then some 2
  else if format = 0x21 then some 2
  else if format = 0x11 then some 1
  else none

/-- `drm_mode_pixel_format` after the formats are told apart: `DRM_FORMAT_YUV420`,
`DRM_FORMAT_YUV422`, `DRM_FORMAT_YUV444`, or what it was. -/
def pixelFormat (format : UInt8) (old : UInt32) : UInt32 :=
  if format = 0x22 then 0x32315559
  else if format = 0x21 then 0x36315559
  else if format = 0x11 then 0x34325559
  else old

/-- What `find_new_plane` asks of a plane. -/
structure DrmPlane where
  formats : List UInt32
  possibleCrtcs : Nat

/-- `find_new_plane`; `false` when it ends the process. -/
def findNewPlane (countCrtcs : Nat) (planes : List DrmPlane) (format : UInt32) : Bool :=
  planes.any fun plane => plane.formats.contains format && (List.range countCrtcs).any plane.possibleCrtcs.testBit

/-- The divisors of `init_display`: of the size of a plane, and of the two pitches. -/
def initDisplayDivisors (format : UInt8) : List (Option Nat) :=
  [(subsamplingDivisor format).map (·.toNat), (chromaPitchesDivisor format).map (·.toNat),
    (chromaPitchesDivisor format).map (·.toNat)]

/-! ## set_size -/

/-- The divisors of `set_size`. -/
def setSizeDivisors (jpeg : JpegT) : List (Option Nat) :=
  [some (8 * (jpeg.comp 0).sampV.toNat), some (8 * (jpeg.comp 0).sampH.toNat)]

/-- Those of `hw_decode_jpeg`. -/
def hwDecodeDivisors (out : Output) (jpeg : JpegT) : List (Option Nat) :=
  if out.Usable then setSizeDivisors jpeg else []

/-! ## A session -/

/-- A frame, with the CRTCs and planes there are when it is delivered. -/
structure Delivery where
  frame : Frame
  countCrtcs : Nat
  planes : List DrmPlane

/-- The decoder and `drm_mode_pixel_format`, and what was divided by so far. -/
structure Session where
  hw : State
  format : UInt32
  divisors : List (Option Nat)

/-- `find_new_plane` finds a plane for the picture, as the first of the session. -/
def Delivery.finds (d : Delivery) (s : Session) (jpeg : JpegT) : Bool :=
  findNewPlane d.countCrtcs d.planes (pixelFormat (getFormat jpeg) s.format)

/-- The frame with the outcome of `init_display`: it ends the process if there is no
plane, and may end it later. -/
def Delivery.answered (d : Delivery) (s : Session) : Frame :=
  { d.frame with displayFails := d.frame.displayFails || d.frame.parse.any fun jpeg => !d.finds s jpeg }

/-- What `hw_decode_jpeg_main` divides by. -/
def frameDivisors (d : Delivery) (s : Session) : List (Option Nat) :=
  match d.frame.parse with
  | none => []
  | some jpeg =>
    if s.hw.displayInitialized then hwDecodeDivisors (s.hw.select d.frame.bufferNumber) jpeg
    else if getFormat jpeg = 0 then []
    else if !d.finds s jpeg then []
    else initDisplayDivisors (getFormat jpeg) ++
      if d.frame.displayFails then []
      else hwDecodeDivisors ((hwInitDisplay d.frame jpeg s.hw).select d.frame.bufferNumber) jpeg

/-- `drm_mode_pixel_format` after `hw_decode_jpeg_main`. -/
def frameFormat (d : Delivery) (s : Session) : UInt32 :=
  match d.frame.parse with
  | none => s.format
  | some jpeg =>
    if s.hw.displayInitialized || getFormat jpeg = 0 then s.format else pixelFormat (getFormat jpeg) s.format

/-- The frames of a session, from `hw_init` on. -/
def session : Machine Session Delivery where
  init s := machine.init s.hw ∧ s.divisors = []
  step s d := if s.hw.exited then none else some
    { hw := hwDecodeJpegMain (d.answered s) s.hw
      format := frameFormat d s
      divisors := s.divisors ++ frameDivisors d s }

/-- A divisor that is set and not zero. -/
def Divides (d : Option Nat) : Prop := ∃ n, d = some n ∧ n ≠ 0

/-- A frame delivered after the display was initialised, if it is a JPEG and the
buffer it gets has usable addresses, has sampling factors; the frame the display is
initialised with is not of the format 0x12, unless there is no plane for it. -/
def DivisorsSet (s : Session) (d : Delivery) : Prop :=
  ∀ jpeg, d.frame.parse = some jpeg →
    (s.hw.displayInitialized = true → (s.hw.select d.frame.bufferNumber).Usable →
      (jpeg.comp 0).sampH ≠ 0 ∧ (jpeg.comp 0).sampV ≠ 0) ∧
    (s.hw.displayInitialized = false → getFormat jpeg = 0x12 → d.finds s jpeg = false)

/-! ## Sampling factors -/

/-- Sampling factors are half-bytes. -/
def Nibbles (jpeg : JpegT) : Prop := ∀ c, (jpeg.comp c).sampH.toNat < 16 ∧ (jpeg.comp c).sampV.toNat < 16

section Parse

variable {mem : Nat → UInt8} {jpeg jpeg' : JpegT}

theorem Nibbles.setComp {jpeg : JpegT} (h : Nibbles jpeg) (id : Fin 3) (b c qt : UInt8) :
    Nibbles (jpeg.setComp id (b >>> 4) (c &&& 0x0f) qt) := by
  intro k
  by_cases e : k = id
  · subst e
    rw [JpegT.setComp]
    dsimp only
    rw [Function.update_self]
    refine ⟨?_, ?_⟩
    · rw [UInt8.toNat_shiftRight, show UInt8.toNat 4 % 8 = 4 from rfl, Nat.shiftRight_eq_div_pow]
      have := b.toNat_lt
      omega
    · rw [UInt8.toNat_and]
      exact Nat.lt_succ_of_le Nat.and_le_right
  · rw [JpegT.setComp]
    dsimp only
    rw [Function.update_of_ne e]
    exact h k

theorem Nibbles.setTables {jpeg : JpegT} (h : Nibbles jpeg) (id : Fin 3) (htDc htAc : UInt8) :
    Nibbles (jpeg.setTables id htDc htAc) := by
  intro k
  by_cases e : k = id
  · subst e
    rw [JpegT.setTables]
    dsimp only
    rw [Function.update_self]
    exact h k
  · rw [JpegT.setTables]
    dsimp only
    rw [Function.update_of_ne e]
    exact h k

theorem nibbles_switchMarker {marker : UInt8} {pos : Nat} {segLen : UInt16} {sos : Bool}
    (h : (switchMarker marker pos segLen jpeg).run mem = some (jpeg', sos)) (hn : Nibbles jpeg) : Nibbles jpeg' := by
  by_cases hk : marker ∈ knownMarkers
  · simp only [knownMarkers, List.mem_cons, List.not_mem_nil, or_false] at hk
    rcases hk with rfl | rfl | rfl | rfl | rfl
    · rw [switchMarker_dqt, run_bind, run_pure, Option.map_eq_some_iff] at h
      obtain ⟨r, hr, hpair⟩ := h
      cases hpair
      exact kept_processDqt (fun hj _ _ => hj) hr hn
    · rw [switchMarker_dht, run_bind, run_pure] at h
      cases h
      exact kept_processDht (fun hj _ _ => hj) hn
    · rw [switchMarker_sof0, run_byte_bind, run_bind, run_bind, run_bind, run_pure, Option.map_eq_some_iff] at h
      obtain ⟨r, hr, hpair⟩ := h
      cases hpair
      exact kept_frameComps Nibbles.setComp hr hn
    · rw [switchMarker_dri, run_bind, run_pure] at h
      cases h
      exact hn
    · rw [switchMarker_sos, run_bind, run_pure, Option.map_eq_some_iff] at h
      obtain ⟨r, hr, hpair⟩ := h
      cases hpair
      exact kept_scanComps Nibbles.setTables hr hn
  · rw [switchMarker_other _ _ _ hk] at h
    split at h
    · cases h
    · cases h
      exact hn

theorem nibbles_parseSegments {len p : Nat} (h : (parseSegments len p jpeg).run mem = some jpeg') (hn : Nibbles jpeg) :
    Nibbles jpeg' := by
  refine parseSegments_induction (P := fun _ jpeg => Nibbles jpeg → Nibbles jpeg') ?_ ?_ h hn
  · intro _ _ _ _ _ hr hdata hn
    have hn₁ := nibbles_switchMarker hr hn
    rw [hdata]
    exact hn₁
  · intro _ _ _ _ _ hr ih hn
    exact ih (nibbles_switchMarker hr hn)

theorem nibbles_parseJpeg {len : Nat} (h : (parseJpeg len).run mem = some jpeg) : Nibbles jpeg := by
  obtain ⟨-, -, h⟩ := parseJpeg_some h
  exact nibbles_parseSegments h fun _ => ⟨Nat.succ_pos 15, Nat.succ_pos 15⟩

end Parse

theorem low_shiftLeft (x : UInt8) : x <<< 4 &&& 0x0f = 0 := by
  apply UInt8.toNat_inj.1
  rw [UInt8.toNat_and, UInt8.toNat_shiftLeft, show UInt8.toNat 4 % 8 = 4 from rfl, Nat.shiftLeft_eq]
  show x.toNat * 2 ^ 4 % 2 ^ 8 &&& 2 ^ 4 - 1 = 0
  rw [Nat.and_two_pow_sub_one_eq_mod]
  omega

/-- A format is made of sampling factors that are not zero. -/
theorem samp_ne_zero {jpeg : JpegT} (hn : Nibbles jpeg) (h : getFormat jpeg ≠ 0) :
    (jpeg.comp 0).sampH ≠ 0 ∧ (jpeg.comp 0).sampV ≠ 0 := by
  have hmem : fmt jpeg ∈ [0x11, 0x21, 0x12, 0x22] := by
    by_contra hno
    exact h (if_neg hno)
  obtain ⟨hh, hv⟩ := hn 0
  unfold fmt at hmem
  generalize (jpeg.comp 0).sampH = sampH at *
  generalize (jpeg.comp 0).sampV = sampV at *
  refine ⟨?_, ?_⟩
  · rintro rfl
    rw [UInt8.zero_shiftLeft, UInt8.zero_or] at hmem
    simp only [List.mem_cons, List.not_mem_nil, or_false] at hmem
    rcases hmem with rfl | rfl | rfl | rfl
    all_goals exact absurd hv (by decide)
  · rintro rfl
    rw [UInt8.or_zero] at hmem
    have hlow := low_shiftLeft sampH
    simp only [List.mem_cons, List.not_mem_nil, or_false] at hmem
    rcases hmem with e | e | e | e
    all_goals
      rw [e] at hlow
      exact absurd hlow (by decide)

/-! ## The divisors of a frame -/

theorem divides_some {n : Nat} : Divides (some n) ↔ n ≠ 0 := by simp [Divides]

theorem forall_initDisplayDivisors {jpeg : JpegT} (h : getFormat jpeg ≠ 0) :
    (∀ d ∈ initDisplayDivisors (getFormat jpeg), Divides d) ↔ getFormat jpeg ≠ 0x12 := by
  have hmem : getFormat jpeg ∈ [0x11, 0x21, 0x12, 0x22] := by
    unfold getFormat at h ⊢
    split at h
    · next hmem => rwa [if_pos hmem]
    · exact absurd rfl h
  generalize getFormat jpeg = format at *
  simp only [List.mem_cons, List.not_mem_nil, or_false] at hmem
  rcases hmem with rfl | rfl | rfl | rfl
  all_goals simp [initDisplayDivisors, subsamplingDivisor, chromaPitchesDivisor, Divides]

theorem forall_hwDecodeDivisors {out : Output} {jpeg : JpegT} :
    (∀ d ∈ hwDecodeDivisors out jpeg, Divides d) ↔
      (out.Usable → (jpeg.comp 0).sampH ≠ 0 ∧ (jpeg.comp 0).sampV ≠ 0) := by
  have hne (x : UInt8) : 8 * x.toNat ≠ 0 ↔ x ≠ 0 := by
    rw [Ne, Ne, ← UInt8.toNat_inj, Nat.mul_eq_zero, or_iff_right (by decide)]
    rfl
  unfold hwDecodeDivisors
  split
  · next hu =>
    rw [setSizeDivisors, List.forall_mem_cons, List.forall_mem_singleton, divides_some, divides_some, hne, hne,
      and_comm]
    exact ⟨fun h _ => h, fun h => h hu⟩
  · next hu => exact iff_of_true (fun d hd => absurd hd List.not_mem_nil) fun h => absurd h hu

/-- A frame divides by what is set and not zero exactly if it meets `DivisorsSet`. -/
theorem forall_frameDivisors (d : Delivery) (s : Session) :
    (∀ n ∈ frameDivisors d s, Divides n) ↔ DivisorsSet s d := by
  unfold frameDivisors DivisorsSet
  cases hp : d.frame.parse with
  | none => simp
  | some jpeg =>
    have hparse : ∀ {P : JpegT → Prop}, (∀ j, some jpeg = some j → P j) ↔ P jpeg := by simp
    rw [hparse]
    dsimp only
    cases hi : s.hw.displayInitialized with
    | true => simp [forall_hwDecodeDivisors]
    | false =>
      rw [if_neg Bool.noConfusion, and_iff_right (fun h => absurd h Bool.noConfusion), forall_prop_of_true rfl]
      by_cases h0 : getFormat jpeg = 0
      · rw [if_pos h0]
        exact iff_of_true (fun n hn => absurd hn List.not_mem_nil) fun h => absurd (h0.symm.trans h) (by decide)
      rw [if_neg h0]
      cases hf : d.finds s jpeg with
      | false => exact iff_of_true (fun n hn => absurd hn List.not_mem_nil) fun _ => rfl
      | true =>
        -- The sampling factors of this frame are not zero, whatever follows.
        have hrest : ∀ n ∈ (if d.frame.displayFails then [] else
            hwDecodeDivisors ((hwInitDisplay d.frame jpeg s.hw).select d.frame.bufferNumber) jpeg), Divides n := by
          split
          · exact fun n hn => absurd hn List.not_mem_nil
          · exact forall_hwDecodeDivisors.2 fun _ => samp_ne_zero (nibbles_parseJpeg hp) h0
        rw [Bool.not_true, if_neg Bool.noConfusion, List.forall_mem_append, and_iff_left hrest,
          forall_initDisplayDivisors h0]
        simp

/-! ## The divisors of a session -/

/-- **What a session divides by.** The divisors of `init_display` and `set_size` are
all set and not zero in exactly the sessions where every frame, when it was
delivered, met `DivisorsSet`. -/
theorem session_divisors (s : Session) :
    session.Via DivisorsSet s ↔ session.Reach s ∧ ∀ d ∈ s.divisors, Divides d := by
  refine Machine.via_iff (P := fun s : Session => ∀ d ∈ s.divisors, Divides d) ?_ ?_
  · intro s hi d hd
    rw [hi.2] at hd
    cases hd
  · intro s d s' _ hs
    simp only [session, Option.ite_none_left_eq_some, Option.some.injEq] at hs
    rw [← hs.2, List.forall_mem_append, forall_frameDivisors]

/-- A picture without a frame header: the sampling factors stay zero. -/
def headlessBytes : List UInt8 := [0xff, mSoi, 0xff, mSos, 0, 8, 1, 1, 0, 0, 63, 0, 0]

/-- The sample picture and then one without a frame header, on a screen with one
plane for YUV444. -/
def headlessSession : List Delivery :=
  let plane : DrmPlane := ⟨[0x34325559], 1⟩
  [⟨pictureFrame 16 2, 1, [plane]⟩,
    ⟨{ pictureFrame 16 3 with data := fun i => headlessBytes.getD i 0, dataLen := headlessBytes.length }, 1, [plane]⟩]

/-- A picture of one component, sampled twice along each column. -/
def tallBytes : List UInt8 :=
  [0xff, mSoi] ++
    [0xff, mDqt, 0, 132] ++ 0 :: List.replicate 64 1 ++ 1 :: List.replicate 64 1 ++
    [0xff, mSof0, 0, 11, 8, 0, 16, 0, 16, 1, 1, 0x12, 0] ++
    [0xff, mSos, 0, 8, 1, 1, 0, 0, 63, 0] ++ [0]

def tallSession : List Delivery :=
  [⟨{ pictureFrame 16 2 with data := fun i => tallBytes.getD i 0 }, 1, [⟨[0x34325559], 1⟩]⟩]

/-- `set_size` divides by zero in the first session. In the second one a session
before it has left `drm_mode_pixel_format` at YUV444: a plane is found for a picture
of the format 0x12, and `init_display` divides by what it has not set. -/
theorem not_session_divisors :
    (∃ s, session.Reach s ∧ some 0 ∈ s.divisors) ∧ ∃ s, session.Reach s ∧ none ∈ s.divisors := by
  have hinit : machine.init initState := ⟨rfl, rfl, rfl, rfl⟩
  refine ⟨?_, ?_⟩
  · obtain ⟨s, hs, hp⟩ := Machine.reach_of_exec (M := session) (s := ⟨initState, 0, []⟩) headlessSession
      (fun s => s.divisors.contains (some 0)) ⟨hinit, rfl⟩ (by decide +kernel)
    exact ⟨s, hs, List.contains_iff_mem.1 hp⟩
  · obtain ⟨s, hs, hp⟩ := Machine.reach_of_exec (M := session) (s := ⟨initState, 0x34325559, []⟩) tallSession
      (fun s => s.divisors.contains none) ⟨hinit, rfl⟩ (by decide +kernel)
    exact ⟨s, hs, List.contains_iff_mem.1 hp⟩

end Camview.Hw
