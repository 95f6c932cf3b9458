/-
`apply_value` of `cec_controls.c` with the value it computes, in exact arithmetic
where the code has doubles, and `poll_cec_events` on top of it.

The control loop takes the computed value as given (`ControlLoop.applyValue`), and
`pollCecEvents_eq` connects the two. `apply_value_on_target` is about the id in
`ctrl`: it is set to 1 and nothing sets it again, so an ioctl reaches the control
that was found in no call but those that find none.
-/
import Camview.ControlLoop
import Camview.RoundAway

namespace Camview.CecControls

open ControlFile
open ControlLoop (integerTypes applies)

/-! ## The value -/

/-- The range of `int`. -/
def FitsInt (x : Int) : Prop := -2 ^ 31 ≤ x ∧ x < 2 ^ 31

instance (x : Int) : Decidable (FitsInt x) := inferInstanceAs (Decidable (_ ∧ _))

/-- `input_percent`. -/
def inputPercent (min max val : Int) : ℚ :=
  let percent : ℚ := (val - min : Int) / (max - min : Int)
  if max < min then 1 - percent else percent

/-- `round(output)`. -/
def roundedOutput (qctrl : Queryctrl) (min max val : Int) : Int :=
  roundAway ((qctrl.maximum.toInt - qctrl.minimum.toInt : Int) * inputPercent min max val + qctrl.minimum.toInt)

/-- `(value / qctrl.step) * qctrl.step`. -/
def wholeSteps (qctrl : Queryctrl) (value : Int) : Option Int32 :=
  let steps := value.tdiv qctrl.step.toInt
  if qctrl.step = 0 ∨ ¬ FitsInt steps then none else some (.ofInt (steps * qctrl.step.toInt))

/-- What `apply_value` assigns to `ctrl.value` for the control it has found. `none`
is that it assigns nothing, or what C leaves undefined: an `int` overflows, or the
step is zero. -/
def ctrlValue (qctrl : Queryctrl) (min max val : Int) : Option Int32 :=
  if ¬ (FitsInt (max - min) ∧ FitsInt (val - min)) then none
  else if min = 0 ∧ max = 0 then
    if val ≤ qctrl.minimum.toInt then some qctrl.minimum
    else if qctrl.maximum.toInt ≤ val then some qctrl.maximum
    else wholeSteps qctrl val
  else if val = min then some qctrl.minimum
  else if val = max then some qctrl.maximum
  else if ¬ FitsInt (qctrl.maximum.toInt - qctrl.minimum.toInt) then none
  else
    let outputInt := roundedOutput qctrl min max val
    if qctrl.minimum.toInt ≤ outputInt ∧ outputInt ≤ qctrl.maximum.toInt then wholeSteps qctrl outputInt
    else none

/-! ## apply_value -/

variable {δ : Type} {T : ParamTypes}

/-- The control at which `apply_value` stops its search. -/
def found (D : Driver δ) (device : δ) (name : String) : Option Queryctrl :=
  cids.findSome? fun id => if applies D device name id then D.queryctrl device id else none

/-- `ctrl.value` when `VIDIOC_S_CTRL` gets it; `unset` is what it held before. -/
def sentValue (D : Driver δ) (unset : Int32) (call : Cec.ApplyValue) (device : δ) : Int32 :=
  ((found D device call.name).bind fun qctrl => ctrlValue qctrl call.min call.max call.val).getD unset

/-- `apply_value`. -/
def applyValue (D : Driver δ) (unset : Int32) (call : Cec.ApplyValue) (w : World δ T) : World δ T × Bool :=
  match found D w.device call.name with
  | none => (w, false)
  | some _ =>
    -- `ctrl.id = 1` at the top of the loop.
    let value := sentValue D unset call w.device
    ({ w with device := D.sCtrl w.device 1 value, ioctls := w.ioctls ++ [.sCtrl 1 value] }, true)

/-- `poll_cec_events` for the messages it takes, each with what `ctrl.value` holds
when `apply_value` is called. -/
def pollCecEvents (D : Driver δ) : List (Cec.Message × Int32) → (Cec.Data2 → UInt8) → World δ T →
    (Cec.Data2 → UInt8) × World δ T × Bool
  | [], d, w => (d, w, false)
  | (msg, unset) :: messages, d, w =>
    let (d, call) := Cec.process msg d
    let (w, changed) :=
      match call with
      | none => (w, false)
      | some call => applyValue D unset call w
    let (d, w, changed') := pollCecEvents D messages d w
    (d, w, changed || changed')

variable {D : Driver δ} {w : World δ T} {unset : Int32} {call : Cec.ApplyValue}

theorem found_isSome {device : δ} {name : String} :
    (found D device name).isSome ↔ ∃ id ∈ cids, applies D device name id = true := by
  unfold found
  rw [List.isSome_findSome?, List.any_eq_true]
  constructor
  · rintro ⟨id, hid, h⟩
    refine ⟨id, hid, ?_⟩
    by_contra hn
    rw [if_neg hn] at h
    cases h
  · rintro ⟨id, hid, h⟩
    refine ⟨id, hid, ?_⟩
    rw [if_pos h]
    unfold applies at h
    split at h
    · cases h
    · next hq => rw [hq]; rfl

theorem applyValue_of_none (unset : Int32) (call : Cec.ApplyValue) (h : found D w.device call.name = none) :
    applyValue D unset call w = (w, false) := by
  unfold applyValue
  rw [h]

theorem applyValue_of_some (unset : Int32) (call : Cec.ApplyValue) {qctrl : Queryctrl}
    (h : found D w.device call.name = some qctrl) :
    applyValue D unset call w =
      ({ w with
        device := D.sCtrl w.device 1 (sentValue D unset call w.device)
        ioctls := w.ioctls ++ [.sCtrl 1 (sentValue D unset call w.device)] }, true) := by
  unfold applyValue
  rw [h]

/-- The control loop's `apply_value` is given the value this one computes. -/
theorem applyValue_eq :
    applyValue D unset call w = ControlLoop.applyValue D call.name (sentValue D unset call w.device) w := by
  unfold ControlLoop.applyValue
  cases h : found D w.device call.name with
  | none =>
    have hn : ¬ cids.any (applies D w.device call.name) = true := by
      rw [List.any_eq_true, ← found_isSome, h]
      exact Bool.noConfusion
    rw [applyValue_of_none _ _ h, if_neg hn]
  | some qctrl =>
    have hs : cids.any (applies D w.device call.name) = true := by
      rw [List.any_eq_true, ← found_isSome, h]
      rfl
    rw [applyValue_of_some _ _ h, if_pos hs]

/-- So the runs of this `poll_cec_events` are runs of the control loop's, with the
values computed here. -/
theorem pollCecEvents_eq (messages : List (Cec.Message × Int32)) (d : Cec.Data2 → UInt8) (w : World δ T) :
    ∃ values : List (Cec.Message × Int32), values.map Prod.fst = messages.map Prod.fst ∧
      pollCecEvents D messages d w = ControlLoop.pollCecEvents D values d w := by
  induction messages generalizing d w with
  | nil => exact ⟨[], rfl, rfl⟩
  | cons m messages ih =>
    obtain ⟨msg, unset⟩ := m
    cases hc : (Cec.process msg d).2 with
    | none =>
      obtain ⟨values, hmap, heq⟩ := ih (Cec.process msg d).1 w
      refine ⟨(msg, unset) :: values, by rw [List.map_cons, hmap, List.map_cons], ?_⟩
      simp only [pollCecEvents, ControlLoop.pollCecEvents, hc, heq]
    | some call =>
      obtain ⟨values, hmap, heq⟩ := ih (Cec.process msg d).1 (applyValue D unset call w).1
      refine ⟨(msg, sentValue D unset call w.device) :: values, by rw [List.map_cons, hmap, List.map_cons], ?_⟩
      simp only [pollCecEvents, ControlLoop.pollCecEvents, hc, heq]
      rw [applyValue_eq]

/-! ## The control that is written -/

/-- A call sets only controls whose queried name and type it has looked for, and
reports it. -/
structure OnTarget (D : Driver δ) (unset : Int32) (call : Cec.ApplyValue) (w : World δ T) : Prop where
  target : ∃ issued, (applyValue D unset call w).1.ioctls = w.ioctls ++ issued ∧
    ∀ ioctl ∈ issued, ∃ id ∈ cids, applies D w.device call.name id = true ∧ ∃ value, ioctl = .sCtrl id value
  silent : (applyValue D unset call w).2 = false → (applyValue D unset call w).1.ioctls = w.ioctls

/-- Every call of `apply_value` in a run of `poll_cec_events` does. -/
def AllOnTarget (D : Driver δ) : List (Cec.Message × Int32) → (Cec.Data2 → UInt8) → World δ T → Prop
  | [], _, _ => True
  | (msg, unset) :: messages, d, w =>
    match Cec.process msg d with
    | (d, none) => AllOnTarget D messages d w
    | (d, some call) => OnTarget D unset call w ∧ AllOnTarget D messages d (applyValue D unset call w).1

/-- The control a message is meant for. -/
def asks (msg : Cec.Message) : Option String := (Cec.process msg fun _ => 0).2.map Cec.ApplyValue.name

theorem processData2_name (k : Cec.Data2) (name : String) (min max : Int) (msg : Cec.Message) (d : Cec.Data2 → UInt8) :
    ((Cec.processData2 k name min max msg d).map id some).2.map Cec.ApplyValue.name = some name := rfl

/-- It does not depend on the messages before. -/
theorem process_name (msg : Cec.Message) (d : Cec.Data2 → UInt8) :
    (Cec.process msg d).2.map Cec.ApplyValue.name = asks msg := by
  unfold asks Cec.process Cec.processContrast Cec.processLuma Cec.processPivot Cec.processSaturation
    Cec.processShutterSpeed
  split_ifs
  · rw [processData2_name, processData2_name]
  · rfl
  · rw [processData2_name, processData2_name]
  · rw [processData2_name, processData2_name]
  · rw [processData2_name, processData2_name]
  · rw [processData2_name, processData2_name]
  · rfl
  · rfl
  · rfl

/-- No integer control has this name. -/
def Absent (D : Driver δ) (device : δ) (name : String) : Prop := ∀ id ∈ cids, applies D device name id = false

theorem found_eq_none {device : δ} {name : String} : found D device name = none ↔ Absent D device name := by
  rw [← Option.not_isSome_iff_eq_none, found_isSome]
  constructor
  · intro h id hid
    exact Bool.not_eq_true _ ▸ fun ha => h ⟨id, hid, ha⟩
  · rintro h ⟨id, hid, ha⟩
    rw [h id hid] at ha
    cases ha

/-- 1 is no id the loop goes over, so what it sets is not what it has found. -/
theorem onTarget_iff : OnTarget D unset call w ↔ Absent D w.device call.name := by
  rw [← found_eq_none]
  constructor
  · intro h
    cases hf : found D w.device call.name with
    | none => rfl
    | some qctrl =>
      obtain ⟨issued, hissued, htarget⟩ := h.target
      rw [applyValue_of_some _ _ hf] at hissued
      have hone : Ioctl.sCtrl 1 (sentValue D unset call w.device) ∈ issued := by
        rw [← List.append_cancel_left hissued]
        exact List.mem_singleton_self _
      obtain ⟨id, hid, -, value, he⟩ := htarget _ hone
      cases he
      exact absurd hid (by decide)
  · intro h
    have happly := applyValue_of_none unset call h
    refine ⟨⟨[], ?_, fun _ hmem => absurd hmem List.not_mem_nil⟩, fun _ => ?_⟩
    · rw [happly, List.append_nil]
    · rw [happly]

theorem allOnTarget_iff (messages : List (Cec.Message × Int32)) (d : Cec.Data2 → UInt8) (w : World δ T) :
    AllOnTarget D messages d w ↔ ∀ m ∈ messages, ∀ name, asks m.1 = some name → Absent D w.device name := by
  induction messages generalizing d w with
  | nil => exact iff_of_true trivial fun _ h => absurd h List.not_mem_nil
  | cons m messages ih =>
    obtain ⟨msg, unset⟩ := m
    have hname := process_name msg d
    rw [List.forall_mem_cons, ← hname]
    rcases hp : Cec.process msg d with ⟨d', - | call⟩
    · rw [AllOnTarget, hp]
      dsimp only
      rw [ih]
      exact (and_iff_right fun _ h => absurd h (Option.some_ne_none _).symm).symm
    · rw [AllOnTarget, hp]
      dsimp only
      have hcall : (∀ name, Option.map Cec.ApplyValue.name (some call) = some name → Absent D w.device name) ↔
          OnTarget D unset call w := by
        rw [onTarget_iff]
        constructor
        · intro h
          exact h call.name rfl
        · intro h name he
          cases he
          exact h
      rw [hcall]
      refine and_congr_right fun htarget => ?_
      -- The call has found nothing, and has left the camera as it was.
      have happly := applyValue_of_none unset call (found_eq_none.2 (onTarget_iff.1 htarget))
      rw [happly]
      exact ih d' w

/-- **What is set is what was found**, for a call of `apply_value` and for every call
in a run of `poll_cec_events`, exactly where no control is found. -/
theorem apply_value_on_target (D : Driver δ) :
    (∀ unset call (w : World δ T), OnTarget D unset call w ↔ Absent D w.device call.name) ∧
      ∀ messages d (w : World δ T), AllOnTarget D messages d w ↔
        ∀ m ∈ messages, ∀ name, asks m.1 = some name → Absent D w.device name :=
  ⟨fun _ _ _ => onTarget_iff, fun messages d w => allOnTarget_iff messages d w⟩

/-- A control from 0 to 255. -/
def byteControl (name : String) : Queryctrl := ⟨v4l2CtrlTypeInteger, .ofString name, 0, 255, 1, 128⟩

/-- A camera with this control only, its state the value of it. -/
def camera (name : String) : Driver Int32 where
  queryctrl _ id := if id = v4l2CidBase + 1 then some (byteControl name) else none
  querymenu _ _ := []
  gCtrl device id := if id = v4l2CidBase + 1 then some device else none
  sCtrl device id value := if id = v4l2CidBase + 1 then value else device

theorem byte_le : 8 ≤ 32 := by decide

def cameraWorld :
    World Int32 ⟨fun _ => ⟨8, false, byte_le⟩, fun _ => ⟨8, false, byte_le⟩, fun _ => ⟨8, false, byte_le⟩⟩ where
  device := 128
  params := ⟨fun _ => 0, fun _ => 0, fun _ => 0⟩
  displayInitialized := true
  pendingControlsApply := false
  file := none
  ioctls := []

/-- A message for the contrast finds it, sets the control 1, and reports a change. -/
theorem not_apply_value_on_target :
    ¬ OnTarget (camera "Contrast") 0 ⟨"Contrast", 0, 4096, 2048⟩ cameraWorld ∧
      ¬ AllOnTarget (camera "Contrast") [(⟨Cec.cecDevContrastCode, 0, 8, 1⟩, 0)] (fun _ => 0) cameraWorld ∧
      (pollCecEvents (camera "Contrast") [(⟨Cec.cecDevContrastCode, 0, 8, 1⟩, 0)] (fun _ => 0) cameraWorld).2.1.ioctls =
        [.sCtrl 1 128] := by
  have hfound : applies (camera "Contrast") cameraWorld.device "Contrast" (v4l2CidBase + 1) = true := by decide +kernel
  have hpresent : ¬ Absent (camera "Contrast") cameraWorld.device "Contrast" := by
    intro h
    rw [h (v4l2CidBase + 1) (by decide)] at hfound
    cases hfound
  refine ⟨mt onTarget_iff.1 hpresent, ?_, by decide +kernel⟩
  intro h
  exact hpresent ((allOnTarget_iff _ _ _).1 h _ (List.mem_singleton_self _) "Contrast" rfl)

end Camview.CecControls
