/-
Cancelling a thread any earlier than `Settled` allows: from there the run can go on
to a use after the tear-down.

Main goes through the rest of the session whatever the threads do (`TornDown`), the
request need not be honoured on the way, and a thread that is not past its last use
comes to one (`leads_of_capture`, `leads_of_control`).
-/
import Camview.Teardown

namespace Camview.Teardown

open Main (Outcome)

variable {s s' : State} {o : Outcome}

/-! ## Late uses -/

/-- The run can go on to a use after the tear-down. -/
def Leads (s : State) : Prop := ∃ t, machine.Steps (fun _ _ => True) s t ∧ t.late ≠ []

theorem Leads.step {a : Act} (hs : Teardown.step s a = some s') (h : Leads s') : Leads s := by
  obtain ⟨t, ht, hl⟩ := h
  exact ⟨t, ht.head trivial hs, hl⟩

/-- The thread is there, also where it goes to after clearing the flags. -/
def CapturePc.born : CapturePc → Bool
  | .unborn => false
  | .clearingCapture next | .clearingControl next => next.born
  | _ => true

theorem captureStep_eq {pc : CapturePc} (hn : captureNext s.main.captureLoopRun o s.capture = some pc) :
    Teardown.step s (.capture o) =
      some { s.uses s.capture.uses with capture := pc, main := captureClears s.capture s.main } := by
  simp only [Teardown.step, Teardown.captureStep, hn, Option.map_some]

theorem controlStep_eq {pc : ControlPc}
    (hn : controlNext s.main.controlLoopRun s.controlCancelled o s.control = some pc) :
    Teardown.step s (.control o) = some { s.uses s.control.uses with control := pc } := by
  simp only [Teardown.step, Teardown.controlStep, hn, Option.map_some]

theorem uses_late {u : Use} (ht : tornDown s.main.pc = true) : (s.uses (some u)).late ≠ [] := by
  simp [State.uses, ht]

/-- A thread about to use something does. -/
theorem leads_of_captureUse {pc pc' : CapturePc} {u : Use} (ht : tornDown s.main.pc = true) (hc : s.capture = pc)
    (hu : pc.uses = some u) (hn : captureNext s.main.captureLoopRun o pc = some pc') : Leads s := by
  subst hc
  exact .step (captureStep_eq hn) ⟨_, .refl, by rw [hu]; exact uses_late ht⟩

theorem leads_of_controlUse {pc pc' : ControlPc} {u : Use} (ht : tornDown s.main.pc = true) (hc : s.control = pc)
    (hu : pc.uses = some u) (hn : controlNext s.main.controlLoopRun s.controlCancelled o pc = some pc') :
    Leads s := by
  subst hc
  exact .step (controlStep_eq hn) ⟨_, .refl, by rw [hu]; exact uses_late ht⟩

/-- A step of the capture thread that uses nothing. -/
theorem Leads.capture {pc pc' : CapturePc} (hc : s.capture = pc) (hu : pc.uses = none)
    (hn : captureNext s.main.captureLoopRun o pc = some pc')
    (h : Leads { s with capture := pc', main := captureClears pc s.main }) : Leads s := by
  subst hc
  refine .step (captureStep_eq hn) ?_
  rwa [hu]

theorem Leads.control {pc pc' : ControlPc} (hc : s.control = pc) (hu : pc.uses = none)
    (hn : controlNext s.main.controlLoopRun s.controlCancelled o pc = some pc')
    (h : Leads { s with control := pc' }) : Leads s := by
  subst hc
  refine .step (controlStep_eq hn) ?_
  rwa [hu]

/-- The capture thread comes to a use; that it clears flags on the way does not keep it
from one. -/
theorem leads_of_capture (ht : tornDown s.main.pc = true) (hb : s.capture.born = true)
    (hp : s.capture.past = false) : Leads s := by
  generalize hc : s.capture = pc at hb hp
  induction pc generalizing s with
  | unborn => cases hb
  | returning | ended => cases hp
  | streamOn | dequeuing | copying | locking | taking | waiting | woken | decoding | putting | queuing
  | streamOff => exact leads_of_captureUse (o := .ok) ht hc rfl rfl
  | top =>
    cases hr : s.main.captureLoopRun
    · have hn : captureNext s.main.captureLoopRun .ok .top = some .streamOff := by rw [hr]; rfl
      exact .capture hc rfl hn (leads_of_captureUse (o := .ok) ht rfl rfl rfl)
    · have hn : captureNext s.main.captureLoopRun .ok .top = some .dequeuing := by rw [hr]; rfl
      exact .capture hc rfl hn (leads_of_captureUse (o := .ok) ht rfl rfl rfl)
  | clearingCapture next ih =>
    exact .capture (o := .ok) hc rfl rfl (.capture (o := .ok) rfl rfl rfl (ih ht rfl hb hp))
  | clearingControl next ih => exact .capture (o := .ok) hc rfl rfl (ih ht rfl hb hp)

theorem leads_of_polling (ht : tornDown s.main.pc = true) (hc : s.control = .polling) : Leads s :=
  .control (o := .fail) hc rfl rfl (leads_of_controlUse (o := .ok) ht rfl rfl rfl)

theorem leads_of_top (ht : tornDown s.main.pc = true) (hc : s.control = .top) : Leads s := by
  cases hr : s.main.controlLoopRun
  · have hn : controlNext s.main.controlLoopRun s.controlCancelled .ok .top = some .finalWriting := by rw [hr]; rfl
    exact .control hc rfl hn (leads_of_controlUse (o := .ok) ht rfl rfl rfl)
  · have hn : controlNext s.main.controlLoopRun s.controlCancelled .ok .top = some .polling := by rw [hr]; rfl
    exact .control hc rfl hn (leads_of_polling ht rfl)

/-- So does the control thread, if it does not sleep. -/
theorem leads_of_control (ht : tornDown s.main.pc = true) (hb : s.control ≠ .unborn) (hp : s.control.past = false)
    (hsl : s.control ≠ .sleeping) : Leads s := by
  cases hc : s.control with
  | unborn => exact absurd hc hb
  | sleeping => exact absurd hc hsl
  | unwatching | returning | ended =>
    rw [hc] at hp
    cases hp
  | loading | writing | reloading | cecLocking | cecLocked | applying | rewriting | finalWriting =>
    exact leads_of_controlUse (o := .ok) ht hc rfl rfl
  | watching =>
    exact .control (o := .ok) hc rfl rfl (.control (o := .ok) rfl rfl rfl (leads_of_top ht rfl))
  | draining => exact .control (o := .ok) hc rfl rfl (leads_of_top ht rfl)
  | top => exact leads_of_top ht hc
  | polling => exact leads_of_polling ht hc
  | deciding => exact .control (o := .ok) hc rfl rfl (leads_of_controlUse (o := .ok) ht rfl rfl rfl)

/-! ## Main -/

/-- From `s` to `t` main gets past `close` and the threads take no step. -/
def TornDown (s t : State) : Prop :=
  machine.Steps (fun _ _ => True) s t ∧ tornDown t.main.pc = true ∧ t.capture = s.capture ∧ t.control = s.control

theorem TornDown.leads {t : State} (h : TornDown s t) (hl : Leads t) : Leads s := by
  obtain ⟨u, hu, hl⟩ := hl
  exact ⟨u, h.1.trans hu, hl⟩

theorem tornDown_main {m : Main.State} (h1 : s.main.pc ≠ .createCapture) (h2 : s.main.pc ≠ .createControl)
    (h3 : s.main.pc ≠ .top) (hj : joins o s = true) (hm : Main.mainStep o s.main = some m)
    (h : ∃ t, TornDown { mainEffect s with main := m } t) : ∃ t, TornDown s t := by
  have hs : machine.step s (.main o) = some { mainEffect s with main := m } := by
    simp [machine, Teardown.step, Teardown.mainStep, h3, hj, hm]
  obtain ⟨t, ht, htd, hca, hco⟩ := h
  exact ⟨t, ht.head trivial hs, htd, hca.trans (mainEffect_capture h1), hco.trans (mainEffect_control h2)⟩

theorem tornDown_closing (hpc : s.main.pc = .closing) : ∃ t, TornDown s t := by
  refine tornDown_main (o := .ok) (by simp [hpc]) (by simp [hpc]) (by simp [hpc]) (by simp [joins, hpc])
    (by simp only [Main.mainStep, hpc]; rfl) ?_
  exact ⟨_, .refl, rfl, rfl, rfl⟩

theorem tornDown_unmapping (hpc : s.main.pc = .unmapping) : ∃ t, TornDown s t :=
  tornDown_main (o := .ok) (by simp [hpc]) (by simp [hpc]) (by simp [hpc]) (by simp [joins, hpc])
    (by simp only [Main.mainStep, hpc]; rfl) (tornDown_closing rfl)

theorem tornDown_cancelControl (hpc : s.main.pc = .cancelControl) : ∃ t, TornDown s t :=
  tornDown_main (o := .ok) (by simp [hpc]) (by simp [hpc]) (by simp [hpc]) (by simp [joins, hpc])
    (by simp only [Main.mainStep, hpc]; rfl) (tornDown_unmapping rfl)

theorem tornDown_joinControl (hpc : s.main.pc = .joinControl) : ∃ t, TornDown s t := by
  by_cases hc : s.control = .ended
  · exact tornDown_main (o := .ok) (by simp [hpc]) (by simp [hpc]) (by simp [hpc]) (by simp [joins, hpc, hc])
      (by simp only [Main.mainStep, hpc]; rfl) (tornDown_unmapping rfl)
  · exact tornDown_main (o := .fail) (by simp [hpc]) (by simp [hpc]) (by simp [hpc]) (by simp [joins, hpc, hc])
      (by simp only [Main.mainStep, hpc]; rfl) (tornDown_cancelControl rfl)

/-! ## Threads that are not past their last use -/

/-- The threads are there once main has created them. -/
structure Born (s : State) : Prop where
  inSession : inSession s.main.pc = true
  capture : s.main.pc ≠ .createCapture → s.capture.born = true
  control : s.main.pc ≠ .createCapture → s.main.pc ≠ .createControl → s.control ≠ .unborn

theorem captureNext_born {run : Bool} {pc pc' : CapturePc} (h : pc.born = true)
    (hs : captureNext run o pc = some pc') : pc'.born = true := by
  cases pc with
  | unborn | ended => cases hs
  | clearingCapture next | clearingControl next =>
    cases hs
    exact h
  | streamOn | dequeuing | copying | taking | top =>
    cases hs
    split <;> rfl
  | locking | waiting | woken | decoding | putting | queuing | streamOff | returning =>
    cases hs
    rfl

theorem controlNext_born {run cancelled : Bool} {pc pc' : ControlPc}
    (hs : controlNext run cancelled o pc = some pc') : pc' ≠ .unborn := by
  cases pc with
  | unborn | ended => cases hs
  | top =>
    cases hs
    split
    · simp
    · split <;> simp
  | polling | cecLocked | deciding =>
    cases hs
    split <;> simp
  | sleeping =>
    simp only [controlNext, Option.ite_none_left_eq_some, Option.some.injEq] at hs
    simp [← hs.2]
  | loading | writing | watching | draining | reloading | cecLocking | applying | rewriting | finalWriting
  | unwatching | returning =>
    cases hs
    simp

theorem Born.mainStep (h : Born s) (hs : mainStep o s = some s') : Born s' := by
  simp only [Teardown.mainStep, Option.ite_none_left_eq_some, Option.map_eq_some_iff] at hs
  obtain ⟨hne, -, m, hm, rfl⟩ := hs
  refine ⟨(mainStep_passes h.inSession hne hm).inSession, fun _ => ?_, fun _ hc => ?_⟩
  · by_cases hpc : s.main.pc = .createCapture
    · simp [mainEffect, hpc, CapturePc.born]
    · show (mainEffect s).capture.born = true
      rw [mainEffect_capture hpc]
      exact h.capture hpc
  · by_cases hpc : s.main.pc = .createControl
    · simp [mainEffect, hpc]
    by_cases hpc' : s.main.pc = .createCapture
    · simp only [Main.mainStep, hpc', Option.some.injEq] at hm
      exact absurd (hm ▸ rfl) hc
    · show (mainEffect s).control ≠ .unborn
      rw [mainEffect_control hpc]
      exact h.control hpc' hpc

/-- The handler leaves main where it is. -/
theorem Born.congr (h : Born s) {m : Main.State} (hm : m.pc = s.main.pc) : Born { s with main := m } :=
  ⟨hm ▸ h.inSession, hm ▸ h.capture, hm ▸ h.control⟩

theorem uses_threads (s : State) (u : Option Use) :
    (s.uses u).main = s.main ∧ (s.uses u).capture = s.capture ∧ (s.uses u).control = s.control := by
  unfold State.uses
  split
  · split <;> exact ⟨rfl, rfl, rfl⟩
  · exact ⟨rfl, rfl, rfl⟩

theorem Born.captureStep (h : Born s) (hs : captureStep o s = some s') : Born s' := by
  simp only [Teardown.captureStep, Option.map_eq_some_iff] at hs
  obtain ⟨pc, hpc, rfl⟩ := hs
  obtain ⟨-, -, hco⟩ := uses_threads s s.capture.uses
  have hm := captureClears_pc s.capture s.main
  refine ⟨by rw [hm]; exact h.inSession, fun hc => ?_, fun hc hc' => ?_⟩
  · exact captureNext_born (h.capture (hm ▸ hc)) hpc
  · rw [hco]
    exact h.control (hm ▸ hc) (hm ▸ hc')

theorem Born.controlStep (h : Born s) (hs : controlStep o s = some s') : Born s' := by
  simp only [Teardown.controlStep, Option.map_eq_some_iff] at hs
  obtain ⟨pc, hpc, rfl⟩ := hs
  obtain ⟨hm, hca, -⟩ := uses_threads s s.control.uses
  refine ⟨by rw [hm]; exact h.inSession, fun hc => ?_, fun _ _ => controlNext_born hpc⟩
  rw [hca]
  exact h.capture (hm ▸ hc)

theorem born (h : machine.Reach s) : Born s := by
  refine h.invariant (fun s hi => ?_) fun s a s' _ hb hs => ?_
  · obtain ⟨-, hpc, -⟩ := hi
    exact ⟨by rw [hpc]; rfl, fun e => absurd hpc e, fun e => absurd hpc e⟩
  cases a with
  | main o => exact hb.mainStep hs
  | capture o => exact hb.captureStep hs
  | control o => exact hb.controlStep hs
  | signal =>
    simp only [machine, Teardown.step, Main.step, Option.map_eq_some_iff, Option.ite_none_right_eq_some,
      Option.some.injEq] at hs
    obtain ⟨m, ⟨-, rfl⟩, rfl⟩ := hs
    exact hb.congr rfl
  | handle =>
    simp only [machine, Teardown.step, Main.step, Option.map_eq_some_iff] at hs
    obtain ⟨m, hm, rfl⟩ := hs
    split at hm <;> cases hm <;> exact hb.congr rfl
  | endCapture =>
    simp only [machine, Teardown.step, Option.ite_none_right_eq_some, Option.some.injEq] at hs
    obtain ⟨-, rfl⟩ := hs
    exact ⟨hb.inSession, fun _ => rfl, hb.control⟩
  | endControl =>
    simp only [machine, Teardown.step, Option.ite_none_right_eq_some, Option.some.injEq] at hs
    obtain ⟨-, rfl⟩ := hs
    exact ⟨hb.inSession, hb.capture, fun _ _ => ControlPc.noConfusion⟩

/-- A thread cancelled before that may use something after the tear-down: the
condition leaves out no run for nothing. -/
theorem leads_of_not_settled {a : Act} (h : machine.Reach s) (hs : machine.step s a = some s')
    (ha : ¬ Settled s a) : Leads s' := by
  have hb := born h
  cases a with
  | signal | handle | capture o | control o | endCapture | endControl => exact absurd trivial ha
  | main o =>
    simp only [machine, Teardown.step, Teardown.mainStep, Option.ite_none_left_eq_some,
      Option.map_eq_some_iff] at hs
    obtain ⟨-, -, m, hm, rfl⟩ := hs
    simp only [Settled, not_and_or, Classical.not_imp, not_or, Bool.not_eq_true] at ha
    rcases ha with ⟨hpc, hp⟩ | ⟨hpc, hp, hsl⟩
    · have hj : m.pc = .joinControl := by
        simp only [Main.mainStep, hpc, Option.some.injEq] at hm
        rw [← hm]
        rfl
      obtain ⟨t, ht⟩ := tornDown_joinControl (s := { mainEffect s with main := m }) hj
      have hca : t.capture = s.capture := ht.2.2.1.trans (mainEffect_capture (by simp [hpc]))
      exact ht.leads (leads_of_capture ht.2.1 (by rw [hca]; exact hb.capture (by simp [hpc]))
        (by rw [hca]; exact hp))
    · have hu : m.pc = .unmapping := by
        simp only [Main.mainStep, hpc, Option.some.injEq] at hm
        rw [← hm]
        rfl
      obtain ⟨t, ht⟩ := tornDown_unmapping (s := { mainEffect s with main := m }) hu
      have hco : t.control = s.control := ht.2.2.2.trans (mainEffect_control (by simp [hpc]))
      exact ht.leads (leads_of_control ht.2.1 (by rw [hco]; exact hb.control (by simp [hpc]) (by simp [hpc]))
        (by rw [hco]; exact hp) (by rw [hco]; exact hsl))

end Camview.Teardown
