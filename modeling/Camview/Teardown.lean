/-
The end of a session: `main` takes its resources down while the capture and the
control thread may still be there, when `pthread_timedjoin_np` times out and
`pthread_cancel` has only left a request.

`main` is that of `Camview.MainLoop`. Each thread is modelled by what it does
next and by what that uses; the outcomes of its calls, the queues it finds and
its variables are an `Outcome`. A request is honoured at a cancellation point:
`usleep` cannot be passed with one pending; stdio and `pthread_cond_wait` may act
on it, the latter with the mutex held again.
-/
import Camview.MainLoop

namespace Camview.Teardown

open Main (Outcome)

/-! ## State -/

/-- What of the session a step of a thread uses. -/
inductive Use
  | inputBuffer
  /-- the queues of `display.c` and `current_values_lock` -/
  | displayQueues
  | videoDevice
  | cecQueue
deriving DecidableEq, Repr

/-- Where `capture_loop` is. -/
inductive CapturePc
  | unborn
  /-- `VIDIOC_STREAMON` -/
  | streamOn
  /-- `while (capture_loop_run)` -/
  | top
  /-- `VIDIOC_DQBUF` -/
  | dequeuing
  /-- `capture_loop_run = 0`, then to `next` by way of `control_loop_run = 0` -/
  | clearingCapture (next : CapturePc)
  | clearingControl (next : CapturePc)
  /-- `hw_decode_jpeg_main`, to the copy into the input buffer -/
  | copying
  /-- `get_buffer_number` -/
  | locking
  /-- with the mutex held: a buffer is available, must be waited for, or neither -/
  | taking
  /-- in `pthread_cond_wait` -/
  | waiting
  /-- after it, with the mutex held -/
  | woken
  /-- `hw_decode_jpeg` -/
  | decoding
  /-- `put_buffer` -/
  | putting
  /-- `VIDIOC_QBUF` -/
  | queuing
  /-- `VIDIOC_STREAMOFF` -/
  | streamOff
  | returning
  | ended
deriving DecidableEq, Repr

/-- Where `control_loop` is. -/
inductive ControlPc
  | unborn
  /-- `load_file_controls` -/
  | loading
  /-- `write_file_controls` -/
  | writing
  /-- `start_inotify_control_file` -/
  | watching
  /-- `inotify_poll` before the loop -/
  | draining
  /-- `while (control_loop_run)` -/
  | top
  | polling
  | reloading
  /-- `pthread_mutex_lock` in `poll_cec_events` -/
  | cecLocking
  /-- with `message_queue_mutex` held -/
  | cecLocked
  /-- `apply_value` -/
  | applying
  /-- `if (has_changes)` -/
  | deciding
  | rewriting
  /-- `usleep` -/
  | sleeping
  /-- `write_file_controls` after the loop -/
  | finalWriting
  /-- `stop_inotify_control_file` -/
  | unwatching
  | returning
  | ended
deriving DecidableEq, Repr

/-- The history is the uses made after `close(video_device.device_file)`, with
where `main` was, and whether a thread ended with a mutex held. -/
structure State where
  main : Main.State
  capture : CapturePc
  captureCancelled : Bool
  control : ControlPc
  controlCancelled : Bool
  late : List (Use × Main.Pc)
  endedHolding : Bool
deriving DecidableEq, Repr

/-! ## Uses -/

/-- `main` is past `close(video_device.device_file)`: `hw_close` and
`stop_cec_controls` come next. -/
def tornDown : Main.Pc → Bool
  | .closingHw | .stoppingCec | .top => true
  | _ => false

def CapturePc.uses : CapturePc → Option Use
  | .streamOn | .dequeuing | .queuing | .streamOff => some .videoDevice
  | .copying | .decoding => some .inputBuffer
  | .locking | .taking | .waiting | .woken | .putting => some .displayQueues
  | _ => none

def ControlPc.uses : ControlPc → Option Use
  | .loading | .writing | .reloading | .applying | .rewriting | .finalWriting => some .videoDevice
  | .cecLocking | .cecLocked => some .cecQueue
  | _ => none

/-- A use is late once the session is torn down. -/
def State.uses (s : State) (u : Option Use) : State :=
  match u with
  | some u => if tornDown s.main.pc then { s with late := s.late ++ [(u, s.main.pc)] } else s
  | none => s

/-- Where a request may be honoured. -/
def CapturePc.cancellable : CapturePc → Bool
  | .streamOn | .dequeuing | .copying | .taking | .waiting | .decoding | .queuing | .streamOff | .returning => true
  | _ => false

/-- A thread that ends here ends with `current_values_lock` held. -/
def CapturePc.holding : CapturePc → Bool
  | .taking | .waiting | .woken => true
  | _ => false

def ControlPc.cancellable : ControlPc → Bool
  | .loading | .writing | .watching | .draining | .polling | .reloading | .applying | .rewriting | .sleeping
  | .finalWriting | .unwatching | .returning => true
  | _ => false

/-- A thread that ends here ends with `message_queue_mutex` held. -/
def ControlPc.holding : ControlPc → Bool
  | .cecLocked => true
  | _ => false

/-! ## Steps -/

/-- Where `capture_loop` goes next; `none` when it does not. -/
def captureNext (run : Bool) (o : Outcome) : CapturePc → Option CapturePc
  | .unborn | .ended => none
  | .streamOn => some (if o = .ok then .top else .clearingCapture .returning)
  | .top => some (if run then .dequeuing else .streamOff)
  | .dequeuing => some (if o = .ok then .copying else .clearingCapture .top)
  | .clearingCapture next => some (.clearingControl next)
  | .clearingControl next => some next
  | .copying => some (if o = .ok then .locking else .queuing)
  | .locking => some .taking
  | .taking => some (if o = .other then .waiting else .decoding)
  | .waiting => some .woken
  | .woken => some .decoding
  | .decoding => some .putting
  | .putting => some .queuing
  | .queuing => some .top
  | .streamOff => some .returning
  | .returning => some .ended

/-- Where `control_loop` goes next; it does not pass `usleep` with a request pending. -/
def controlNext (run cancelled : Bool) (o : Outcome) : ControlPc → Option ControlPc
  | .unborn | .ended => none
  | .loading => some .writing
  | .writing => some .watching
  | .watching => some .draining
  | .draining => some .top
  | .top => some (if run then .polling else if o = .ok then .finalWriting else .unwatching)
  | .polling => some (if o = .ok then .reloading else .cecLocking)
  | .reloading => some .cecLocking
  | .cecLocking => some .cecLocked
  | .cecLocked => some (if o = .ok then .applying else .deciding)
  | .applying => some .cecLocking
  | .deciding => some (if o = .ok then .rewriting else .sleeping)
  | .rewriting => some .sleeping
  | .sleeping => if cancelled then none else some .top
  | .finalWriting => some .unwatching
  | .unwatching => some .returning
  | .returning => some .ended

/-- The flags `capture_loop` clears. -/
def captureClears (pc : CapturePc) (m : Main.State) : Main.State :=
  match pc with
  | .clearingCapture _ => { m with captureLoopRun := false }
  | .clearingControl _ => { m with controlLoopRun := false }
  | _ => m

def captureStep (o : Outcome) (s : State) : Option State :=
  (captureNext s.main.captureLoopRun o s.capture).map fun pc =>
    { s.uses s.capture.uses with capture := pc, main := captureClears s.capture s.main }

def controlStep (o : Outcome) (s : State) : Option State :=
  (controlNext s.main.controlLoopRun s.controlCancelled o s.control).map fun pc =>
    { s.uses s.control.uses with control := pc }

/-- A join succeeds when the thread has ended, and times out before. -/
def joins (o : Outcome) (s : State) : Bool :=
  match s.main.pc with
  | .joinCapture => (o == .ok) == (s.capture == .ended)
  | .joinControl => (o == .ok) == (s.control == .ended)
  | _ => true

/-- What `main` does to the threads. -/
def mainEffect (s : State) : State :=
  match s.main.pc with
  | .createCapture => { s with capture := .streamOn }
  | .createControl => { s with control := .loading }
  | .cancelCapture => { s with captureCancelled := true }
  | .cancelControl => { s with controlCancelled := true }
  | _ => s

/-- A step of `main`, up to the end of the session. -/
def mainStep (o : Outcome) (s : State) : Option State :=
  if s.main.pc = .top then none
  else if joins o s = false then none
  else (Main.mainStep o s.main).map fun m => { mainEffect s with main := m }

inductive Act
  | main (o : Outcome)
  /-- the SIGINT handler begins or goes on -/
  | signal
  | handle
  | capture (o : Outcome)
  | control (o : Outcome)
  /-- the capture thread honours its request -/
  | endCapture
  | endControl
deriving DecidableEq, Repr

def step (s : State) : Act → Option State
  | .main o => mainStep o s
  | .signal => (Main.step s.main .signal).map fun m => { s with main := m }
  | .handle => (Main.step s.main .handle).map fun m => { s with main := m }
  | .capture o => captureStep o s
  | .control o => controlStep o s
  | .endCapture =>
    if s.captureCancelled ∧ s.capture.cancellable then
      some { s with capture := .ended, endedHolding := s.endedHolding || s.capture.holding }
    else none
  | .endControl =>
    if s.controlCancelled ∧ s.control.cancellable then
      some { s with control := .ended, endedHolding := s.endedHolding || s.control.holding }
    else none

/-- A session from the creation of its threads on. -/
def machine : Machine State Act where
  init s := Main.machine.Reach s.main ∧ s.main.pc = .createCapture ∧ s.capture = .unborn ∧
    s.captureCancelled = false ∧ s.control = .unborn ∧ s.controlCancelled = false ∧ s.late = [] ∧
    s.endedHolding = false
  step := step

/-! ## Past the last use -/

/-- `capture_loop` uses nothing any more. -/
def CapturePc.past : CapturePc → Bool
  | .clearingCapture next | .clearingControl next => next.past
  | .returning | .ended => true
  | _ => false

/-- `control_loop` uses nothing any more. -/
def ControlPc.past : ControlPc → Bool
  | .unwatching | .returning | .ended => true
  | _ => false

/-- A thread is cancelled only when it is past its last use or, in the case of the
control thread, at `usleep`, which it cannot pass then. -/
def Settled (s : State) : Act → Prop
  | .main _ => (s.main.pc = .cancelCapture → s.capture.past = true) ∧
      (s.main.pc = .cancelControl → s.control.past = true ∨ s.control = .sleeping)
  | _ => True

instance (s : State) : (a : Act) → Decidable (Settled s a)
  | .main _ => inferInstanceAs (Decidable (_ ∧ _))
  | .signal | .handle | .capture _ | .control _ | .endCapture | .endControl => inferInstanceAs (Decidable True)

/-- No thread used anything late or ended with a mutex held. -/
structure Safe (s : State) : Prop where
  late : s.late = []
  endedHolding : s.endedHolding = false

variable {s s' : State} {o : Outcome}

theorem CapturePc.past_uses {pc : CapturePc} (h : pc.past = true) : pc.uses = none := by
  cases pc <;> first | rfl | cases h

theorem CapturePc.past_holding {pc : CapturePc} (h : pc.past = true) : pc.holding = false := by
  cases pc <;> first | rfl | cases h

theorem captureNext_past {run : Bool} {pc pc' : CapturePc} (h : pc.past = true)
    (hs : captureNext run o pc = some pc') : pc'.past = true := by
  cases pc with
  | clearingCapture next | clearingControl next =>
    cases hs
    exact h
  | returning =>
    cases hs
    rfl
  | ended => cases hs
  | _ => cases h

/-- Past its last use, or asleep with a request pending. -/
def ControlPc.settled (pc : ControlPc) (cancelled : Bool) : Prop := pc.past = true ∨ pc = .sleeping ∧ cancelled = true

theorem ControlPc.settled_uses {pc : ControlPc} {cancelled : Bool} (h : pc.settled cancelled) : pc.uses = none := by
  rcases h with h | ⟨rfl, -⟩
  · cases pc <;> first | rfl | cases h
  · rfl

theorem ControlPc.settled_holding {pc : ControlPc} {cancelled : Bool} (h : pc.settled cancelled) :
    pc.holding = false := by
  rcases h with h | ⟨rfl, -⟩
  · cases pc <;> first | rfl | cases h
  · rfl

theorem controlNext_settled {run cancelled : Bool} {pc pc' : ControlPc} (h : pc.settled cancelled)
    (hs : controlNext run cancelled o pc = some pc') : pc'.settled cancelled := by
  rcases h with h | ⟨rfl, rfl⟩
  · cases pc with
    | unwatching | returning =>
      cases hs
      exact .inl rfl
    | ended => cases hs
    | _ => cases h
  · cases hs

/-! ## Where main is -/

/-- Within a session. -/
def inSession : Main.Pc → Bool
  | .createCapture | .createControl | .sleeping | .testCapture | .testControl | .joinCapture | .cancelCapture
  | .joinControl | .cancelControl | .unmapping | .closing | .closingHw | .stoppingCec | .top => true
  | _ => false

/-- The capture thread has been joined or cancelled. -/
def capturePassed : Main.Pc → Bool
  | .joinControl | .cancelControl | .unmapping | .closing | .closingHw | .stoppingCec | .top => true
  | _ => false

def controlPassed : Main.Pc → Bool
  | .unmapping | .closing | .closingHw | .stoppingCec | .top => true
  | _ => false

/-- How `main` gets past the joins. -/
structure Passes (m m' : Main.State) (o : Outcome) : Prop where
  inSession : inSession m'.pc = true
  capture : capturePassed m'.pc = true →
    capturePassed m.pc = true ∨ m.pc = .joinCapture ∧ o = .ok ∨ m.pc = .cancelCapture
  control : controlPassed m'.pc = true →
    controlPassed m.pc = true ∨ m.pc = .joinControl ∧ o = .ok ∨ m.pc = .cancelControl
  captureStays : capturePassed m.pc = true → capturePassed m'.pc = true
  controlStays : controlPassed m.pc = true → controlPassed m'.pc = true

theorem mainStep_passes {m m' : Main.State} (hin : inSession m.pc = true) (hne : m.pc ≠ .top)
    (hs : Main.mainStep o m = some m') : Passes m m' o := by
  obtain ⟨d, c, k, pc, h, cr, n, i, f⟩ := m
  cases pc with
  | top => exact absurd rfl hne
  | starting | opening | enumerating | setting | getting | requesting | querying | initCec | initHw | runCapture
  | runControl | stopping | ended => cases hin
  | createCapture | createControl | sleeping | cancelCapture | cancelControl | unmapping | closing | closingHw
  | stoppingCec =>
    cases hs
    constructor <;> simp [inSession, capturePassed, controlPassed, Main.State.goto]
  | testCapture =>
    cases hs
    cases c <;> constructor <;> simp [inSession, capturePassed, controlPassed, Main.State.goto]
  | testControl =>
    cases hs
    cases k <;> constructor <;> simp [inSession, capturePassed, controlPassed, Main.State.goto]
  | joinCapture | joinControl =>
    cases hs
    cases o <;> constructor <;> simp [inSession, capturePassed, controlPassed, Main.State.goto]

theorem capturePassed_of_controlPassed {pc : Main.Pc} (h : controlPassed pc = true) : capturePassed pc = true := by
  cases pc <;> first | rfl | cases h

theorem controlPassed_of_tornDown {pc : Main.Pc} (h : tornDown pc = true) : controlPassed pc = true := by
  cases pc <;> first | rfl | cases h

/-! ## The invariant -/

/-- Once `main` is past the join of a thread, that thread uses nothing any more. -/
structure Inv (s : State) : Prop where
  inSession : inSession s.main.pc = true
  capture : capturePassed s.main.pc = true → s.capture.past = true
  captureCancelled : s.captureCancelled = true → capturePassed s.main.pc = true
  control : controlPassed s.main.pc = true → s.control.settled s.controlCancelled
  controlCancelled : s.controlCancelled = true → controlPassed s.main.pc = true
  safe : Safe s

theorem uses_eq {u : Option Use} (h : tornDown s.main.pc = true → u = none) : s.uses u = s := by
  unfold State.uses
  split
  · next u =>
    split
    · next ht => exact absurd (h ht) (Option.some_ne_none u)
    · rfl
  · rfl

/-- The threads and the handler leave `main` where it is. -/
theorem Inv.congr (h : Inv s) {m : Main.State} (hm : m.pc = s.main.pc) : Inv { s with main := m } where
  inSession := hm ▸ h.inSession
  capture := hm ▸ h.capture
  captureCancelled := hm ▸ h.captureCancelled
  control := hm ▸ h.control
  controlCancelled := hm ▸ h.controlCancelled
  safe := ⟨h.safe.late, h.safe.endedHolding⟩

theorem captureClears_pc (pc : CapturePc) (m : Main.State) : (captureClears pc m).pc = m.pc := by
  unfold captureClears
  split <;> rfl

theorem Inv.captureStep (h : Inv s) (hs : captureStep o s = some s') : Inv s' := by
  simp only [Teardown.captureStep, Option.map_eq_some_iff] at hs
  obtain ⟨pc, hpc, rfl⟩ := hs
  have hu : s.uses s.capture.uses = s := uses_eq fun ht =>
    CapturePc.past_uses (h.capture (capturePassed_of_controlPassed (controlPassed_of_tornDown ht)))
  have hm := captureClears_pc s.capture s.main
  rw [hu]
  exact { h.congr hm with
    capture := fun hp => captureNext_past (h.capture (hm ▸ hp)) hpc
    safe := ⟨h.safe.late, h.safe.endedHolding⟩ }

theorem Inv.controlStep (h : Inv s) (hs : controlStep o s = some s') : Inv s' := by
  simp only [Teardown.controlStep, Option.map_eq_some_iff] at hs
  obtain ⟨pc, hpc, rfl⟩ := hs
  have hu : s.uses s.control.uses = s := uses_eq fun ht =>
    ControlPc.settled_uses (h.control (controlPassed_of_tornDown ht))
  rw [hu]
  exact { h with
    control := fun hp => controlNext_settled (h.control hp) hpc
    safe := ⟨h.safe.late, h.safe.endedHolding⟩ }

/-- A thread that honours a request is past its last use, or asleep. -/
theorem Inv.endCapture (h : Inv s) (hc : s.captureCancelled = true) :
    Inv { s with capture := .ended, endedHolding := s.endedHolding || s.capture.holding } := by
  have hh := CapturePc.past_holding (h.capture (h.captureCancelled hc))
  exact { h with capture := fun _ => rfl, safe := ⟨h.safe.late, by simp [h.safe.endedHolding, hh]⟩ }

theorem Inv.endControl (h : Inv s) (hc : s.controlCancelled = true) :
    Inv { s with control := .ended, endedHolding := s.endedHolding || s.control.holding } := by
  have hh := ControlPc.settled_holding (h.control (h.controlCancelled hc))
  exact { h with control := fun _ => .inl rfl, safe := ⟨h.safe.late, by simp [h.safe.endedHolding, hh]⟩ }

section Effect

theorem mainEffect_capture (h : s.main.pc ≠ .createCapture) : (mainEffect s).capture = s.capture := by
  unfold mainEffect
  split <;> first | rfl | contradiction

theorem mainEffect_control (h : s.main.pc ≠ .createControl) : (mainEffect s).control = s.control := by
  unfold mainEffect
  split <;> first | rfl | contradiction

theorem mainEffect_captureCancelled (s : State) :
    (mainEffect s).captureCancelled = (s.captureCancelled || s.main.pc == .cancelCapture) := by
  unfold mainEffect
  split <;> simp_all

theorem mainEffect_controlCancelled (s : State) :
    (mainEffect s).controlCancelled = (s.controlCancelled || s.main.pc == .cancelControl) := by
  unfold mainEffect
  split <;> simp_all

theorem mainEffect_safe (h : Safe s) : Safe (mainEffect s) := by
  unfold mainEffect
  split <;> exact ⟨h.late, h.endedHolding⟩

end Effect

theorem Inv.mainStep (h : Inv s) (hc : Settled s (.main o)) (hs : mainStep o s = some s') : Inv s' := by
  simp only [Teardown.mainStep, Option.ite_none_left_eq_some, Option.map_eq_some_iff] at hs
  obtain ⟨hne, hj, m, hm, rfl⟩ := hs
  have hp := mainStep_passes h.inSession hne hm
  have hj : joins o s = true := by simpa using hj
  constructor
  · exact hp.inSession
  · intro hcap
    show (mainEffect s).capture.past = true
    rcases hp.capture hcap with hcap | ⟨hpc, rfl⟩ | hpc
    · rw [mainEffect_capture (by intro e; simp [e, capturePassed] at hcap)]
      exact h.capture hcap
    · rw [mainEffect_capture (by simp [hpc])]
      simp only [joins, hpc, beq_self_eq_true, Bool.true_beq, beq_iff_eq] at hj
      simp [hj, CapturePc.past]
    · rw [mainEffect_capture (by simp [hpc])]
      exact hc.1 hpc
  · intro hcan
    simp only [mainEffect_captureCancelled, Bool.or_eq_true, beq_iff_eq] at hcan
    rcases hcan with hcan | hpc
    · exact hp.captureStays (h.captureCancelled hcan)
    · simp only [Main.mainStep, hpc, Option.some.injEq] at hm
      rw [← hm]
      rfl
  · intro hctl
    show (mainEffect s).control.settled (mainEffect s).controlCancelled
    rw [mainEffect_controlCancelled]
    rcases hp.control hctl with hctl | ⟨hpc, rfl⟩ | hpc
    · rw [mainEffect_control (by intro e; simp [e, controlPassed] at hctl)]
      exact (h.control hctl).imp_right fun hs => ⟨hs.1, by simp [hs.2]⟩
    · rw [mainEffect_control (by simp [hpc])]
      simp only [joins, hpc, beq_self_eq_true, Bool.true_beq, beq_iff_eq] at hj
      exact .inl (by simp [hj, ControlPc.past])
    · rw [mainEffect_control (by simp [hpc])]
      exact (hc.2 hpc).imp_right fun hs => ⟨hs, by simp [hpc]⟩
  · intro hcan
    simp only [mainEffect_controlCancelled, Bool.or_eq_true, beq_iff_eq] at hcan
    rcases hcan with hcan | hpc
    · exact hp.controlStays (h.controlCancelled hcan)
    · simp only [Main.mainStep, hpc, Option.some.injEq] at hm
      rw [← hm]
      rfl
  · have hsafe := mainEffect_safe h.safe
    exact ⟨hsafe.late, hsafe.endedHolding⟩

theorem inv_init (hi : machine.init s) : Inv s := by
  obtain ⟨-, hm, -, hca, -, hco, hl, he⟩ := hi
  exact ⟨by rw [hm]; rfl, by simp [hm, capturePassed], by simp [hca], by simp [hm, controlPassed], by simp [hco],
    ⟨hl, he⟩⟩

theorem Inv.step (h : Inv s) {a : Act} (hc : Settled s a) (hs : machine.step s a = some s') : Inv s' := by
  cases a with
  | main o => exact h.mainStep hc hs
  | signal =>
    simp only [machine, Teardown.step, Main.step, Option.map_eq_some_iff, Option.ite_none_right_eq_some,
      Option.some.injEq] at hs
    obtain ⟨m, ⟨-, rfl⟩, rfl⟩ := hs
    exact h.congr rfl
  | handle =>
    simp only [machine, Teardown.step, Main.step, Option.map_eq_some_iff] at hs
    obtain ⟨m, hm, rfl⟩ := hs
    split at hm
    · cases hm
      exact h.congr rfl
    · cases hm
      exact h.congr rfl
    · cases hm
  | capture o => exact h.captureStep hs
  | control o => exact h.controlStep hs
  | endCapture =>
    simp only [machine, Teardown.step, Option.ite_none_right_eq_some, Option.some.injEq] at hs
    obtain ⟨⟨hcan, -⟩, rfl⟩ := hs
    exact h.endCapture hcan
  | endControl =>
    simp only [machine, Teardown.step, Option.ite_none_right_eq_some, Option.some.injEq] at hs
    obtain ⟨⟨hcan, -⟩, rfl⟩ := hs
    exact h.endControl hcan

/-! ## Sessions -/

/-- **No worker runs on torn-down state.** In every run in which a thread is
cancelled only past its last use, or the control thread also at `usleep`, nothing
is used after `close(video_device.device_file)` and no thread ends with a mutex
held. -/
theorem teardown_safe (h : machine.Via Settled s) : Safe s :=
  (h.invariant (I := Inv) (fun _ hi => inv_init hi) fun _ _ _ _ hi hc hs => hi.step hc hs).safe

/-- A session about to create its threads. -/
def initState : State where
  main := ⟨true, true, true, .createCapture, .idle, false, 1, 0, false⟩
  capture := .unborn
  captureCancelled := false
  control := .unborn
  controlCancelled := false
  late := []
  endedHolding := false

/-- SIGINT ends the session while both threads are at their loops. -/
def toJoin : List Act :=
  List.flatten [List.replicate 2 (.main .ok), [.capture .ok], List.replicate 4 (.control .ok),
    [.signal, .handle, .handle], List.replicate 3 (.main .ok)]

theorem init_initState : machine.init initState := by
  refine ⟨Machine.Reach.exec (.start ⟨rfl, rfl, rfl, rfl, rfl, rfl, rfl, rfl⟩)
    (rfl : Main.machine.exec Main.initState (List.replicate 14 (.main .ok)) = some _), ?_⟩
  exact ⟨rfl, rfl, rfl, rfl, rfl, rfl, rfl⟩

/-- Both threads return and are joined. -/
def joined : List Act :=
  List.flatten [toJoin, List.replicate 3 (.capture .ok), List.replicate 4 (.control .ok), List.replicate 6 (.main .ok)]

theorem teardown_safe_joined :
    ∃ s, machine.execIf Settled initState joined = some s ∧ (s.main.pc == .top) = true ∧ Safe s := by
  obtain ⟨s, hs, hp⟩ := Option.map_eq_some_iff.1
    (by decide +kernel : (machine.execIf Settled initState joined).map (·.main.pc == .top) = some true)
  exact ⟨s, hs, hp, teardown_safe (Machine.Via.execIf (.start init_initState) hs)⟩

/-- Both joins time out, the capture thread in `pthread_cond_wait` and the control
thread before its next CEC message. -/
def timedOut : List Act :=
  List.flatten [List.replicate 2 (.main .ok), List.replicate 5 (.capture .ok), [.capture .other],
    List.replicate 5 (.control .ok), [.control .fail], [.signal, .handle, .handle], List.replicate 3 (.main .ok),
    List.replicate 4 (.main .fail), List.replicate 4 (.main .ok), [.endCapture], List.replicate 3 (.control .ok)]

/-- One thread ends with `current_values_lock` held, the other uses the queue and
the video device after all is torn down. -/
theorem not_teardown_safe : ∃ s, machine.Reach s ∧ s.endedHolding = true ∧
    (.cecQueue, .top) ∈ s.late ∧ (.videoDevice, .top) ∈ s.late := by
  obtain ⟨s, hs, hp⟩ := Machine.reach_of_exec timedOut
    (fun s : State => s.endedHolding && s.late.contains (.cecQueue, .top) && s.late.contains (.videoDevice, .top))
    init_initState (by decide +kernel)
  simp only [Bool.and_eq_true, List.contains_iff_mem] at hp
  exact ⟨s, hs, hp.1.1, hp.1.2, hp.2⟩

end Camview.Teardown
