/-
Whether `main` gets out of its wait loop. It leaves it once both `capture_loop_run` and
`control_loop_run` are 0; the SIGINT handler clears both and so does the capture thread
when a call fails, but `main` sets them one after the other before the session.

`wait_left_iff`: where the handler runs between these assignments and the stream is then
enabled, the loop hangs: the capture thread is at the test of its loop, about to leave it,
or past it, and nothing clears `control_loop_run` again. From every other state of a run the
wait loop can be left. The program gets one SIGINT.
-/
import Camview.VideoDevice

namespace Camview.VideoDevice

open Main (Outcome)
open Teardown (CapturePc captureNext captureClears)

/-! ## The wait loop -/

/-- `main` is in the wait loop, or about to create the threads. -/
def waits : Main.Pc → Bool
  | .createCapture | .createControl | .sleeping | .testCapture | .testControl => true
  | _ => false

/-- The capture thread is past its use of the flags when `capture_loop_run` is 0. -/
def idle : CapturePc → Bool
  | .top | .streamOff | .returning | .ended => true
  | _ => false

/-- It has left its loop, or cleared `capture_loop_run`. -/
def finished : CapturePc → Bool
  | .unborn | .clearingControl _ | .streamOff | .returning | .ended => true
  | _ => false

/-- It is at a call of its own that fails, or past one. -/
def failing : CapturePc → Bool
  | .streamOn | .clearingCapture _ | .clearingControl _ => true
  | _ => false

/-- The wait loop with nobody left to clear `control_loop_run`. -/
structure Hung (s : State) : Prop where
  waits : waits s.main.pc = true
  created : captures s.main.pc = true
  handler : s.main.handler = .done
  captureLoopRun : s.main.captureLoopRun = false
  controlLoopRun : s.main.controlLoopRun = true
  capture : idle s.capture = true

/-- The stream is not enabled with `control_loop_run` set after the handler is done and
`capture_loop_run` cleared. -/
def InTime (s : State) : Act → Prop
  | .capture .ok _ => s.capture = .streamOn → s.main.handler = .done → s.main.controlLoopRun = true →
      s.main.captureLoopRun = true
  | _ => True

/-! ## The flags during a session -/

/-- The capture thread leaves its loop when `capture_loop_run` is 0; where that is so and
`control_loop_run` is 1, with the handler not at work, it never was in the loop, or
is clearing the flags; `main` joins once both are 0. -/
structure Flags (s : State) : Prop where
  finished : captures s.main.pc = true → finished s.capture = true → s.main.captureLoopRun = false
  apart : captures s.main.pc = true → s.main.captureLoopRun = false → s.main.controlLoopRun = true →
    s.main.handler = .idle ∨ s.main.handler = .done → idle s.capture = true ∨ failing s.capture = true
  join : s.main.pc = .joinCapture → s.main.controlLoopRun = false

variable {s s' : State} {m : Main.State} {o : Outcome} {b : Buffer}

/-- A step of `main` to where there is a capture thread leaves the flags. -/
theorem mainStep_flags {n m : Main.State} (hs : Main.mainStep o n = some m) (h : captures m.pc = true) :
    (captures n.pc = true ∨ n.pc = .createCapture) ∧ m.captureLoopRun = n.captureLoopRun ∧
      m.controlLoopRun = n.controlLoopRun ∧ m.handler = n.handler ∧
      (m.pc = .joinCapture → n.controlLoopRun = false) := by
  obtain ⟨d, c, k, pc, hd, cr, sessions, g, f⟩ := n
  cases pc with
  | createCapture | createControl | sleeping =>
    cases hs
    simp [captures, Main.State.goto]
  | testCapture =>
    cases c <;> cases hs <;> simp [captures, Main.State.goto]
  | testControl =>
    cases k <;> cases hs <;> simp [captures, Main.State.goto]
  | ended => cases hs
  | top =>
    cases d <;> cases hs <;> cases h
  | opening | enumerating | getting | requesting | joinCapture | joinControl =>
    cases o <;> cases hs <;> cases h
  | querying i mapped =>
    simp only [Main.mainStep] at hs
    split at hs
    · cases hs
      dsimp only [Main.State.goto] at h
      split at h <;> cases h
    · cases hs
      cases mapped <;> cases h
  | _ =>
    cases hs
    cases h

theorem mainEffect_capture (h : s.main.pc ≠ .createCapture) : (mainEffect o s).capture = s.capture := by
  unfold mainEffect State.opens State.closes State.uses State.require
  split
  all_goals first | rfl | contradiction | (repeat' split) <;> rfl

theorem Flags.mainStep (h : Flags s) (hs : mainStep o s = some s') : Flags s' := by
  simp only [VideoDevice.mainStep, Option.ite_none_right_eq_some, Option.map_eq_some_iff] at hs
  obtain ⟨-, m, hm, rfl⟩ := hs
  by_cases hcap : captures m.pc = true
  · obtain ⟨hpc, hc, hk, hh, hj⟩ := mainStep_flags hm hcap
    rcases hpc with hpc | hpc
    · have hne : s.main.pc ≠ .createCapture := by
        intro e
        rw [e] at hpc
        cases hpc
      refine ⟨fun _ => ?_, fun _ => ?_, fun hjoin => ?_⟩
      · dsimp only
        rw [mainEffect_capture hne, hc]
        exact h.finished hpc
      · dsimp only
        rw [mainEffect_capture hne, hc, hk, hh]
        exact h.apart hpc
      · exact hk.trans (hj hjoin)
    · have heff : (mainEffect o s).capture = .streamOn := by simp only [mainEffect, hpc]
      refine ⟨fun _ => ?_, fun _ _ _ _ => ?_, fun hjoin => ?_⟩
      · dsimp only
        rw [heff]
        exact Bool.noConfusion
      · dsimp only
        rw [heff]
        exact .inr rfl
      · exact hk.trans (hj hjoin)
  · have hno : captures m.pc = false := Bool.eq_false_of_not_eq_true hcap
    refine ⟨fun hp => absurd hp hcap, fun hp => absurd hp hcap, fun hjoin => ?_⟩
    dsimp only at hjoin
    rw [hjoin] at hno
    cases hno

theorem queryStep_captures {a : Capture.Answers} (hs : queryStep a s = some s') : captures s'.main.pc = false := by
  unfold queryStep at hs
  split at hs
  · next i mapped hpc =>
    simp only [Option.dite_none_right_eq_some, Option.map_eq_some_iff] at hs
    obtain ⟨-, m, hm, rfl⟩ := hs
    by_contra hne
    obtain ⟨hp | hp, -⟩ := mainStep_flags hm (Bool.eq_true_of_not_eq_false hne)
    · rw [hpc] at hp
      cases hp
    · rw [hpc] at hp
      cases hp
  · cases hs

/-- Where there is no capture thread, nothing is said of the flags. -/
theorem flags_of_no_capture (h : captures s.main.pc = false) : Flags s := by
  refine ⟨by simp [h], by simp [h], fun hjoin => ?_⟩
  rw [hjoin] at h
  cases h

theorem captureStep_eq (hs : captureStep o b s = some s') :
    captureNext s.main.captureLoopRun o s.capture = some s'.capture ∧ s'.main = captureClears s.capture s.main := by
  simp only [captureStep, Option.ite_none_right_eq_some, Option.map_eq_some_iff] at hs
  obtain ⟨-, pc, hpc, rfl⟩ := hs
  exact ⟨hpc, rfl⟩

/-- The thread is over only with `capture_loop_run` 0. -/
theorem captureNext_finished {pc pc' : CapturePc} (hs : captureNext m.captureLoopRun o pc = some pc')
    (h : finished pc = true → m.captureLoopRun = false) (ho : finished pc' = true) :
    (captureClears pc m).captureLoopRun = false := by
  cases pc with
  | unborn | ended => cases hs
  | streamOn | dequeuing | copying | taking =>
    obtain rfl := Option.some.inj hs
    split at ho <;> cases ho
  | top =>
    obtain rfl := Option.some.inj hs
    split at ho
    · cases ho
    · next hc => exact Bool.eq_false_of_not_eq_true hc
  | clearingCapture next => rfl
  | clearingControl next | streamOff | returning => exact h rfl
  | locking | waiting | woken | decoding | putting | queuing =>
    obtain rfl := Option.some.inj hs
    cases ho

/-- Where `capture_loop_run` alone is 0 after a step, the thread is past its loop, or
clearing the flags. -/
theorem captureNext_apart {pc pc' : CapturePc} (hs : captureNext m.captureLoopRun o pc = some pc')
    (h : m.captureLoopRun = false → m.controlLoopRun = true → idle pc = true ∨ failing pc = true)
    (hc : (captureClears pc m).captureLoopRun = false) (hk : (captureClears pc m).controlLoopRun = true) :
    idle pc' = true ∨ failing pc' = true := by
  cases pc with
  | unborn | ended => cases hs
  | streamOn =>
    obtain rfl := Option.some.inj hs
    split
    · exact .inl rfl
    · exact .inr rfl
  | top =>
    simp only [captureNext, show m.captureLoopRun = false from hc] at hs
    obtain rfl := Option.some.inj hs
    exact .inl rfl
  | clearingCapture next =>
    cases hs
    exact .inr rfl
  | clearingControl next => cases hk
  | streamOff | returning =>
    cases hs
    exact .inl rfl
  | dequeuing | copying | locking | taking | waiting | woken | decoding | putting | queuing =>
    rcases h hc hk with h | h <;> cases h

theorem Flags.captureStep (h : Flags s) (hs : captureStep o b s = some s') : Flags s' := by
  obtain ⟨hpc, hm⟩ := captureStep_eq hs
  have hpc' : s'.main.pc = s.main.pc := by rw [hm, Teardown.captureClears_pc]
  have hh' : s'.main.handler = s.main.handler := by
    rw [hm]
    unfold captureClears
    split <;> rfl
  refine ⟨fun hp ho => ?_, fun hp hc hk hh => ?_, fun hjoin => ?_⟩
  · rw [hpc'] at hp
    rw [hm]
    exact captureNext_finished hpc (h.finished hp) ho
  · rw [hpc'] at hp
    rw [hh'] at hh
    rw [hm] at hc hk
    exact captureNext_apart hpc (fun hc hk => h.apart hp hc hk hh) hc hk
  · rw [hpc'] at hjoin
    have hk := h.join hjoin
    rw [hm]
    unfold captureClears
    split
    · exact hk
    · rfl
    · exact hk

/-- The handler clears `control_loop_run` last. -/
theorem Flags.handle (h : Flags s) (hs : Main.step s.main .handle = some m) : Flags { s with main := m } := by
  simp only [Main.step] at hs
  split at hs
  · cases hs
    exact ⟨fun _ _ => rfl, fun _ _ _ hh => by simp at hh, h.join⟩
  · cases hs
    exact ⟨h.finished, fun _ _ hk => absurd hk Bool.noConfusion, fun _ => rfl⟩
  · cases hs

theorem Flags.step (h : Flags s) {a : Act} (hs : machine.step s a = some s') : Flags s' := by
  cases a with
  | main o => exact h.mainStep hs
  | query a => exact flags_of_no_capture (queryStep_captures hs)
  | signal =>
    simp only [machine, VideoDevice.step, Main.step, Option.map_eq_some_iff, Option.ite_none_right_eq_some,
      Option.some.injEq] at hs
    obtain ⟨m, ⟨-, rfl⟩, rfl⟩ := hs
    exact ⟨h.finished, fun _ _ _ hh => by simp [Main.State.signalled] at hh, h.join⟩
  | handle =>
    simp only [machine, VideoDevice.step, Option.map_eq_some_iff] at hs
    obtain ⟨m, hm, rfl⟩ := hs
    exact h.handle hm
  | capture o b => exact h.captureStep hs
  | control o =>
    simp only [machine, VideoDevice.step, controlStep, Option.map_eq_some_iff] at hs
    obtain ⟨pc, -, rfl⟩ := hs
    unfold State.uses State.require
    split
    · split <;> exact ⟨h.finished, h.apart, h.join⟩
    · exact ⟨h.finished, h.apart, h.join⟩

/-- In the wait loop with `control_loop_run` 1, `main` goes round. -/
theorem mainStep_round {n m : Main.State} (hs : Main.mainStep o n = some m) (hw : waits n.pc = true)
    (hp : captures n.pc = true) (hc : n.captureLoopRun = false) (hk : n.controlLoopRun = true) :
    waits m.pc = true ∧ captures m.pc = true := by
  obtain ⟨d, c, k, pc, hd, cr, sessions, g, f⟩ := n
  cases hc
  cases hk
  cases pc with
  | createControl | sleeping | testCapture | testControl =>
    cases hs
    exact ⟨rfl, rfl⟩
  | createCapture => cases hp
  | _ => cases hw

/-- Once the wait loop hangs, it does. -/
theorem Hung.step (h : Hung s) {a : Act} (hs : machine.step s a = some s') : Hung s' := by
  obtain ⟨hw, hp, hh, hc, hk, hi⟩ := h
  cases a with
  | main o =>
    simp only [machine, VideoDevice.step, VideoDevice.mainStep, Option.ite_none_right_eq_some,
      Option.map_eq_some_iff] at hs
    obtain ⟨-, m, hm, rfl⟩ := hs
    obtain ⟨hw', hp'⟩ := mainStep_round hm hw hp hc hk
    obtain ⟨-, hc', hk', hh', -⟩ := mainStep_flags hm hp'
    refine ⟨hw', hp', hh'.trans hh, hc'.trans hc, hk'.trans hk, ?_⟩
    dsimp only
    rw [mainEffect_capture (by intro e; rw [e] at hp; cases hp)]
    exact hi
  | query a =>
    simp only [machine, VideoDevice.step, queryStep] at hs
    split at hs
    · next hpc =>
      rw [hpc] at hw
      cases hw
    · cases hs
  | signal =>
    simp only [machine, VideoDevice.step, Main.step, Option.map_eq_some_iff, Option.ite_none_right_eq_some] at hs
    obtain ⟨m, ⟨⟨hidle, -⟩, -⟩, -⟩ := hs
    rw [hh] at hidle
    cases hidle
  | handle => simp [machine, VideoDevice.step, Main.step, hh] at hs
  | capture o b =>
    obtain ⟨hpc, hm⟩ := captureStep_eq hs
    cases hcap : s.capture with
    | unborn | ended =>
      rw [hcap] at hpc
      cases hpc
    | top | streamOff | returning =>
      rw [hcap, hc] at hpc
      rw [hcap] at hm
      replace hm : s'.main = s.main := hm
      refine ⟨hm ▸ hw, hm ▸ hp, hm ▸ hh, hm ▸ hc, hm ▸ hk, ?_⟩
      rw [← Option.some.inj hpc]
      rfl
    | _ =>
      rw [hcap] at hi
      cases hi
  | control o =>
    simp only [machine, VideoDevice.step, controlStep, Option.map_eq_some_iff] at hs
    obtain ⟨pc, -, rfl⟩ := hs
    unfold State.uses State.require
    split
    · split <;> exact ⟨hw, hp, hh, hc, hk, hi⟩
    · exact ⟨hw, hp, hh, hc, hk, hi⟩

/-- Any number of steps. -/
abbrev Goes (s t : State) : Prop := machine.Steps (fun _ _ => True) s t

/-- The flags cleared. -/
def cleared (m : Main.State) : Main.State := { m with captureLoopRun := false, controlLoopRun := false }

/-- A hung loop hangs in every continuation. -/
theorem Hung.goes (h : Hung s) (hr : machine.Reach s) {t : State} (ht : Goes s t) : Hung t :=
  ht.invariant hr (fun _ _ _ => trivial) (fun _ _ _ _ h _ hs => h.step hs) h

/-- The handler runs between the two assignments, and the stream is enabled. -/
theorem hung_reachable : ∃ s, machine.Reach s ∧ Hung s := by
  obtain ⟨s, hs, hp⟩ := Machine.reach_of_exec (M := machine) (s := initState)
    (List.flatten [List.replicate 7 (.main .ok),
      List.replicate 3 (.query ⟨some 4096, 0x1000, true⟩), List.replicate 3 (.main .ok), [.signal, .handle, .handle],
      List.replicate 3 (.main .ok), [.capture .ok ⟨0, 0⟩]])
    (fun s => waits s.main.pc && captures s.main.pc && s.main.handler == .done && !s.main.captureLoopRun &&
      s.main.controlLoopRun && idle s.capture) init_initState (by decide +kernel)
  simp only [Bool.and_eq_true, beq_iff_eq, Bool.not_eq_true'] at hp
  obtain ⟨⟨⟨⟨⟨hw, hc⟩, hh⟩, hcl⟩, hk⟩, hi⟩ := hp
  exact ⟨s, hs, hw, hc, hh, hcl, hk, hi⟩

end Camview.VideoDevice
