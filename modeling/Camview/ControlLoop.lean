/-
`control_loop` of `main.c`, with the file it watches and whoever else writes it.

A call that reads the file, writes it or asks inotify is one step, with what is
made of its result; so is `poll_cec_events`. The file is never removed, and
replacing its content raises `IN_CLOSE_WRITE` where there is a watch. What the
answers of the rest of the world are, the value `apply_value` has computed among
them, is part of the action.
-/
import Camview.Cec
import Camview.ControlFile
import Camview.Transition

namespace Camview.ControlLoop

open ControlFile

variable {δ : Type} {T : ParamTypes}

/-! ## poll_cec_events -/

/-- The types `apply_value` takes a control to be an integer by. -/
def integerTypes : List UInt32 := [v4l2CtrlTypeInteger, v4l2CtrlTypeU8, v4l2CtrlTypeU16, v4l2CtrlTypeU32]

/-- Whether `apply_value` stops its search at this id. -/
def applies (D : Driver δ) (device : δ) (name : String) (id : Nat) : Bool :=
  match D.queryctrl device id with
  | none => false
  | some qctrl => qctrl.name = .ofString name && qctrl.type ∈ integerTypes

/-- `apply_value`, where `ctrl.value` is `value` in the end; `ctrl.id` is 1 for every
control. -/
def applyValue (D : Driver δ) (name : String) (value : Int32) (w : World δ T) : World δ T × Bool :=
  if cids.any (applies D w.device name) then
    ({ w with device := D.sCtrl w.device 1 value, ioctls := w.ioctls ++ [.sCtrl 1 value] }, true)
  else (w, false)

/-- `poll_cec_events` for the messages it takes, each with the `ctrl.value` it ends in. -/
def pollCecEvents (D : Driver δ) : List (Cec.Message × Int32) → (Cec.Data2 → UInt8) → World δ T →
    (Cec.Data2 → UInt8) × World δ T × Bool
  | [], d, w => (d, w, false)
  | (msg, value) :: messages, d, w =>
    let (d, call) := Cec.process msg d
    let (w, changed) :=
      match call with
      | none => (w, false)
      | some call => applyValue D call.name value w
    let (d, w, changed') := pollCecEvents D messages d w
    (d, w, changed || changed')

theorem pollCecEvents_false {D : Driver δ} {messages : List (Cec.Message × Int32)} {d : Cec.Data2 → UInt8}
    {w : World δ T} (h : (pollCecEvents D messages d w).2.2 = false) : (pollCecEvents D messages d w).2.1 = w := by
  induction messages generalizing d w with
  | nil => rfl
  | cons m messages ih =>
    simp only [pollCecEvents, Bool.or_eq_false_iff] at h ⊢
    rw [ih h.2]
    replace h := h.1
    split at h
    · rfl
    · unfold applyValue at h ⊢
      split at h
      · cases h
      · next hn => rw [if_neg hn]

/-! ## The loop -/

/-- Where `control_loop` is, named after what it does next. -/
inductive Pc
  /-- the first `load_file_controls` -/
  | loading
  /-- the first `write_file_controls` -/
  | writing
  /-- `start_inotify_control_file` -/
  | watching
  /-- the `inotify_poll` before the loop -/
  | draining
  /-- `while (control_loop_run)` -/
  | top
  /-- `inotify_poll() > 0` -/
  | polling
  /-- `load_file_controls` in the loop, and `has_changes |= changes_loaded` -/
  | reloading
  /-- `has_changes |= poll_cec_events` -/
  | cec
  /-- `if (has_changes)` in the loop -/
  | deciding
  /-- the block under `if (loop_count > 20)` -/
  | rewriting
  /-- `usleep` -/
  | sleeping
  /-- `write_file_controls` after the loop -/
  | finalWriting
  /-- `stop_inotify_control_file` -/
  | unwatching
  | ended
  /-- the process has ended -/
  | aborted
deriving DecidableEq, Repr

/-- The variables of the thread, the world, and what inotify has for it: whether the
file is watched, and whether `inotify_fd` is readable. The history is whether the
file holds the content of an external writer that was not loaded, and whether such
a content was overwritten. -/
structure State (δ : Type) (T : ParamTypes) where
  pc : Pc
  hasChanges : Bool
  loopCount : Nat
  controlLoopRun : Bool
  data2 : Cec.Data2 → UInt8
  world : World δ T
  watched : Bool
  event : Bool
  unread : Bool
  lost : Bool

/-- What the calls of a step answer: `opened` is `fopen` for writing, `watch` that
inotify can be set up, `polled` that `poll` does not fail. -/
structure Answers (T : ParamTypes) where
  stdio : Stdio
  stack : Params T
  opened : Bool
  watch : Bool
  polled : Bool
  messages : List (Cec.Message × Int32)

inductive Act (T : ParamTypes)
  /-- the next step of the thread -/
  | own (ans : Answers T)
  /-- an external writer replaces the content and closes the file -/
  | external (text : List UInt8)
  /-- it is closed after writing as it was -/
  | touch
  /-- `control_loop_run = 0` -/
  | stop
  /-- the display threads set their flags -/
  | display (initialized pending : Bool)

/-- `load_file_controls` with `has_changes` being `had`. A content is loaded when its text
has come to the parser: not where `read_controls` cannot open it, skips it for its size,
or gets no line of it. -/
def State.load (D : Driver δ) (J : JsonC) (ans : Answers T) (had : Bool) (next : Pc) (s : State δ T) : State δ T :=
  match loadFileControls D J ans.stdio ans.stack s.world with
  | none => { s with pc := .aborted }
  | some (w, changed) =>
    { s with
      world := w
      hasChanges := had || changed
      unread := s.unread && (givenText ans.stdio s.world.file).isNone
      pc := next }

/-- `write_file_controls`. -/
def State.write (D : Driver δ) (J : JsonC) (opened : Bool) (s : State δ T) : State δ T :=
  if opened then
    { s with
      world := writeFile D J opened s.world
      event := s.event || s.watched
      lost := s.lost || s.unread
      unread := false }
  else s

/-- `inotify_poll` where `poll` does not fail; the watch is added again after an
event. -/
def State.poll (polled : Bool) (s : State δ T) : State δ T :=
  if polled && s.event then { s with event := false, watched := s.watched || s.world.file.isSome } else s

section

variable (s : State δ T) (polled : Bool)

@[simp] theorem State.poll_world : (s.poll polled).world = s.world := by unfold State.poll; split <;> rfl
@[simp] theorem State.poll_hasChanges : (s.poll polled).hasChanges = s.hasChanges := by
  unfold State.poll; split <;> rfl
@[simp] theorem State.poll_controlLoopRun : (s.poll polled).controlLoopRun = s.controlLoopRun := by
  unfold State.poll; split <;> rfl
@[simp] theorem State.poll_unread : (s.poll polled).unread = s.unread := by unfold State.poll; split <;> rfl
@[simp] theorem State.poll_lost : (s.poll polled).lost = s.lost := by unfold State.poll; split <;> rfl

end

/-- A step of `control_loop`. -/
def own (D : Driver δ) (J : JsonC) (ans : Answers T) (s : State δ T) : Option (State δ T) :=
  match s.pc with
  | .loading => some (s.load D J ans false .writing)
  | .writing => some { s.write D J ans.opened with pc := .watching }
  | .watching => some { s with watched := ans.watch && s.world.file.isSome, pc := .draining }
  | .draining => some { s.poll ans.polled with pc := .top }
  | .top =>
    some { s with
      pc := if s.controlLoopRun then .polling else if s.hasChanges then .finalWriting else .unwatching }
  | .polling => some { s.poll ans.polled with pc := if ans.polled && s.event then .reloading else .cec }
  | .reloading => some (s.load D J ans s.hasChanges .cec)
  | .cec =>
    let (d, w, changed) := pollCecEvents D ans.messages s.data2 s.world
    some { s with data2 := d, world := w, hasChanges := s.hasChanges || changed, pc := .deciding }
  | .deciding =>
    if s.hasChanges then
      some { s with
        loopCount := s.loopCount + 1
        pc := if s.loopCount + 1 > 20 then .rewriting else .sleeping }
    else some { s with pc := .sleeping }
  | .rewriting =>
    some { s.write D J ans.opened with hasChanges := false, loopCount := 0, pc := .sleeping }
  | .sleeping => some { s with pc := .top }
  | .finalWriting => some { s.write D J ans.opened with pc := .unwatching }
  | .unwatching => some { s with watched := false, event := false, pc := .ended }
  | .ended | .aborted => none

section

variable {D : Driver δ} {J : JsonC} {ans : Answers T} {s : State δ T}

theorem own_writes (ans : Answers T) (hpc : s.pc = .writing ∨ s.pc = .rewriting ∨ s.pc = .finalWriting) :
    ∃ s', own D J ans s = some s' ∧ s'.lost = (s.write D J ans.opened).lost := by
  unfold own
  rcases hpc with hpc | hpc | hpc
  · rw [hpc]; exact ⟨_, rfl, rfl⟩
  · rw [hpc]; exact ⟨_, rfl, rfl⟩
  · rw [hpc]; exact ⟨_, rfl, rfl⟩

theorem own_watching (hpc : s.pc = .watching) :
    own D J ans s = some { s with watched := ans.watch && s.world.file.isSome, pc := .draining } := by
  unfold own; rw [hpc]

theorem own_draining (hpc : s.pc = .draining) : own D J ans s = some { s.poll ans.polled with pc := .top } := by
  unfold own; rw [hpc]

theorem own_top (hpc : s.pc = .top) :
    own D J ans s = some { s with
      pc := if s.controlLoopRun then .polling else if s.hasChanges then .finalWriting else .unwatching } := by
  unfold own; rw [hpc]

theorem own_polling (hpc : s.pc = .polling) :
    own D J ans s = some { s.poll ans.polled with pc := if ans.polled && s.event then .reloading else .cec } := by
  unfold own; rw [hpc]

theorem own_cec (hpc : s.pc = .cec) :
    own D J ans s = some { s with
      data2 := (pollCecEvents D ans.messages s.data2 s.world).1
      world := (pollCecEvents D ans.messages s.data2 s.world).2.1
      hasChanges := s.hasChanges || (pollCecEvents D ans.messages s.data2 s.world).2.2
      pc := .deciding } := by
  unfold own; rw [hpc]

theorem own_deciding (hpc : s.pc = .deciding) (hc : s.hasChanges = true) :
    own D J ans s = some { s with
      loopCount := s.loopCount + 1
      pc := if s.loopCount + 1 > 20 then .rewriting else .sleeping } := by
  unfold own; rw [hpc]; exact if_pos hc

theorem own_waiting (hpc : s.pc = .deciding) (hc : s.hasChanges = false) :
    own D J ans s = some { s with pc := .sleeping } := by
  unfold own; rw [hpc]; exact if_neg (by simp [hc])

theorem own_sleeping (hpc : s.pc = .sleeping) : own D J ans s = some { s with pc := .top } := by
  unfold own; rw [hpc]

end

def step (D : Driver δ) (J : JsonC) (s : State δ T) : Act T → Option (State δ T)
  | .own ans => own D J ans s
  | .external text =>
    some { s with world := { s.world with file := some text }, event := s.event || s.watched, unread := true }
  | .touch => some { s with event := s.event || s.watched }
  | .stop => some { s with controlLoopRun := false }
  | .display initialized pending =>
    some { s with world := { s.world with displayInitialized := initialized, pendingControlsApply := pending } }

/-- One run of `control_loop`. A content that is there may be one it never loaded. -/
def machine (D : Driver δ) (J : JsonC) : Machine (State δ T) (Act T) where
  init s := s.pc = .loading ∧ s.hasChanges = false ∧ s.loopCount = 0 ∧ s.watched = false ∧ s.event = false ∧
    (s.unread = true → s.world.file.isSome = true) ∧ s.lost = false
  step := step D J

end Camview.ControlLoop
