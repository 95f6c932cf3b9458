/-
Whether the controls file holds the changes `control_loop` has made, when no one else
writes the file: whenever `has_changes` is 0 after the start-up, and when the thread
returns.

`write_file` does not say whether it could open the file, and `has_changes` is cleared
after it all the same. So this holds in the runs in which each write that the caller
takes for granted is made (`Opens`), and in these only.
-/
import Camview.ControlUpdates

namespace Camview.ControlLoop

open ControlFile

variable {δ : Type} {T : ParamTypes} {D : Driver δ} {J : JsonC} {s s' : State δ T} {a : Act T}

/-- Past the first load and the write after it. -/
def Pc.started : Pc → Bool
  | .loading | .writing | .aborted => false
  | _ => true

/-- `control_loop` is returning, or has returned. -/
def Pc.returning : Pc → Bool
  | .unwatching | .ended => true
  | _ => false

/-- No applied change is unsaved. -/
structure UpToDate (D : Driver δ) (J : JsonC) (s : State δ T) : Prop where
  clean : s.pc.started = true → s.hasChanges = false → Saved D J s.world
  returned : s.pc.returning = true → Saved D J s.world

/-- No external writer. -/
def NoWriter : Act T → Prop
  | .external _ => False
  | _ => True

instance (a : Act T) : Decidable (NoWriter a) :=
  match a with
  | .external _ => isFalse id
  | .own _ | .touch | .stop | .display .. => isTrue trivial

/-- `fopen` for writing succeeds, or the file is up to date before; at the start-up,
or `has_changes` is set, which stays so. -/
def Opens (D : Driver δ) (J : JsonC) (s : State δ T) : Act T → Prop
  | .own ans =>
    match s.pc with
    | .writing => ans.opened = true ∨ s.hasChanges = true ∨ Saved D J s.world
    | .rewriting | .finalWriting => ans.opened = true ∨ Saved D J s.world
    | _ => True
  | _ => True

/-! ## Steps -/

theorem saved_writeFile (D : Driver δ) (J : JsonC) (w : World δ T) : Saved D J (writeFile D J true w) := rfl

/-- After `write_file` the file is up to date if it could be opened, or was before. -/
theorem State.saved_write {opened : Bool} :
    Saved D J (s.write D J opened).world ↔ opened = true ∨ Saved D J s.world := by
  unfold State.write
  cases opened
  · simp
  · simp [saved_writeFile]

@[simp] theorem State.write_hasChanges (opened : Bool) : (s.write D J opened).hasChanges = s.hasChanges := by
  unfold State.write
  split <;> rfl

/-- Before the end of the start-up nothing is asked. -/
theorem upToDate_of_not_started (h : s.pc.started = false) : UpToDate D J s := by
  refine ⟨fun hs => absurd hs (by simp [h]), fun hr => ?_⟩
  cases hpc : s.pc <;> simp_all [Pc.started, Pc.returning]

/-- A step that leaves the world alone. -/
theorem UpToDate.same (h : UpToDate D J s) (hst : s.pc.started = true) (hw : s'.world = s.world)
    (hc : s'.hasChanges = s.hasChanges)
    (hr : s'.pc.returning = true → s.hasChanges = false ∨ s.pc.returning = true) : UpToDate D J s' := by
  refine ⟨fun _ hc' => ?_, fun hr' => ?_⟩
  · rw [hw]
    exact h.clean hst (hc ▸ hc')
  · rw [hw]
    exact (hr hr').elim (h.clean hst) h.returned

theorem UpToDate.load {ans : Answers T} (h : UpToDate D J s) (hst : s.pc.started = true) :
    UpToDate D J (s.load D J ans s.hasChanges .cec) := by
  unfold State.load
  split
  · exact upToDate_of_not_started rfl
  · next w changed hload =>
    refine ⟨fun _ hc => ?_, fun hr => by cases hr⟩
    obtain ⟨hc', rfl⟩ := Bool.or_eq_false_iff.1 hc
    rw [loadFileControls_false hload]
    exact h.clean hst hc'

theorem UpToDate.cec {messages : List (Cec.Message × Int32)} (h : UpToDate D J s) (hst : s.pc.started = true) :
    UpToDate D J { s with
      data2 := (pollCecEvents D messages s.data2 s.world).1
      world := (pollCecEvents D messages s.data2 s.world).2.1
      hasChanges := s.hasChanges || (pollCecEvents D messages s.data2 s.world).2.2
      pc := .deciding } := by
  refine ⟨fun _ hc => ?_, fun hr => by cases hr⟩
  obtain ⟨hc, hp⟩ := Bool.or_eq_false_iff.1 hc
  dsimp only
  rw [pollCecEvents_false hp]
  exact h.clean hst hc

/-- What is asked after a write, where `has_changes` is as before or cleared. -/
theorem upToDate_write {opened : Bool} {pc : Pc} {hasChanges : Bool} {loopCount : Nat} (hst : pc.started = true)
    (hc : pc.returning = true ∨ hasChanges = false) :
    UpToDate D J { s.write D J opened with hasChanges := hasChanges, loopCount := loopCount, pc := pc } ↔
      opened = true ∨ Saved D J s.world := by
  rw [← State.saved_write]
  constructor
  · intro h
    exact hc.elim h.returned (h.clean hst)
  · intro h
    exact ⟨fun _ _ => h, fun _ => h⟩

/-- A step of the thread leaves all changes saved exactly if it meets `Opens`. -/
theorem upToDate_own {ans : Answers T} (h : UpToDate D J s) (hs : own D J ans s = some s') :
    UpToDate D J s' ↔ Opens D J s (.own ans) := by
  cases hpc : s.pc <;> simp only [own, hpc, Option.some.injEq, reduceCtorEq] at hs <;> simp only [Opens, hpc]
  case loading =>
    refine iff_true_intro (upToDate_of_not_started ?_)
    subst hs
    unfold State.load
    split <;> rfl
  case writing =>
    subst hs
    cases hc : s.hasChanges
    · have hw : (s.write D J ans.opened).hasChanges = false := by rw [State.write_hasChanges, hc]
      rw [upToDate_write rfl (.inr hw)]
      simp
    · refine iff_of_true ⟨fun _ hc' => ?_, fun hr => by cases hr⟩ (by simp)
      simp [hc] at hc'
  case reloading => exact iff_true_intro (hs ▸ h.load (by rw [hpc]; rfl))
  case cec => exact iff_true_intro (hs ▸ h.cec (by rw [hpc]; rfl))
  case rewriting =>
    subst hs
    exact upToDate_write rfl (.inr rfl)
  case finalWriting =>
    subst hs
    exact upToDate_write rfl (.inl rfl)
  case watching | sleeping =>
    subst hs
    exact iff_true_intro (h.same (by rw [hpc]; rfl) rfl rfl fun hr => by cases hr)
  case draining =>
    subst hs
    exact iff_true_intro (h.same (by rw [hpc]; rfl) (by simp) (by simp) fun hr => by cases hr)
  case polling =>
    subst hs
    refine iff_true_intro (h.same (by rw [hpc]; rfl) (by simp) (by simp) fun hr => ?_)
    dsimp only at hr
    split at hr <;> cases hr
  case top =>
    subst hs
    refine iff_true_intro (h.same (by rw [hpc]; rfl) rfl rfl fun hr => ?_)
    cases hc : s.hasChanges
    · exact .inl rfl
    · cases hrun : s.controlLoopRun <;> simp [hc, hrun, Pc.returning] at hr
  case deciding =>
    split at hs <;> cases hs
    · refine iff_true_intro (h.same (by rw [hpc]; rfl) rfl rfl fun hr => ?_)
      dsimp only at hr
      split at hr <;> cases hr
    · exact iff_true_intro (h.same (by rw [hpc]; rfl) rfl rfl fun hr => by cases hr)
  case unwatching =>
    subst hs
    exact iff_true_intro (h.same (by rw [hpc]; rfl) rfl rfl fun _ => .inr (by rw [hpc]; rfl))

theorem upToDate_step (h : UpToDate D J s) (hn : NoWriter a) (hs : step D J s a = some s') :
    UpToDate D J s' ↔ Opens D J s a := by
  cases a with
  | own ans => exact upToDate_own h hs
  | external text => cases hn
  | touch | stop | display initialized pending =>
    cases hs
    exact iff_true_intro ⟨h.clean, h.returned⟩

/-- **No applied change is left unsaved.** Of the runs without an external writer,
those whose writes all meet `Opens` are those in whose states every change is saved. -/
theorem upToDate_iff : (machine D J).Via (fun s a => NoWriter a ∧ Opens D J s a) s ↔
    (machine D J).Via (fun s a => NoWriter a ∧ ∀ s', (machine D J).step s a = some s' → UpToDate D J s') s := by
  refine Machine.via_iff_forall (B := fun _ a => NoWriter a) (P := UpToDate D J) (fun s hi => ?_) fun s a s' => ?_
  · exact upToDate_of_not_started (by rw [hi.1]; rfl)
  · exact upToDate_step

/-! ### A file system that stays read-only -/

/-- The calls of a step, `fopen` for writing failing. -/
def readOnly : Answers bytesAndWords := { answers with opened := false }

/-- The file holds an update from before the start. -/
def updatedState : State (Nat → Int32) bytesAndWords :=
  { startState with world := { webcamWorld with file := some emptyText } }

theorem init_updatedState : (machine webcam (jsonCOf emptyUpdate)).init updatedState :=
  ⟨rfl, rfl, rfl, rfl, rfl, fun _ => rfl, rfl⟩

/-- The start-up, 20 rounds and the round that clears `has_changes`. -/
def readOnlyRun : List (Act bytesAndWords) := List.replicate (4 + 20 * 5 + 5) (.own readOnly)

theorem not_upToDate : ∃ s : State (Nat → Int32) bytesAndWords,
    (machine webcam (jsonCOf emptyUpdate)).Via (fun _ a => NoWriter a) s ∧ s.pc = .sleeping ∧
      s.hasChanges = false ∧ ¬ Saved webcam (jsonCOf emptyUpdate) s.world := by
  obtain ⟨s, hs, hp⟩ := Option.map_eq_some_iff.1 (by decide +kernel :
    ((machine webcam (jsonCOf emptyUpdate)).execIf (fun _ a => NoWriter a) updatedState readOnlyRun).map
      (fun s => decide (s.pc = .sleeping ∧ s.hasChanges = false ∧ ¬ Saved webcam (jsonCOf emptyUpdate) s.world)) =
        some true)
  exact ⟨s, Machine.Via.execIf (.start init_updatedState) hs, of_decide_eq_true hp⟩

end Camview.ControlLoop
