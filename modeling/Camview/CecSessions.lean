/-
The sessions of `cec_controls.c`: `init_cec_controls`, `poll_cec_events` and
`stop_cec_controls`, again and again, on static variables that nothing resets.

`init_cec_controls` returns early when the device cannot be opened or no TV
answers, and has then neither emptied the queue nor initialised the mutex nor
created the thread. `stop_cec_controls` and `poll_cec_events` do not look at
how it returned. An operation on something that is not there, or not there any
more, is a `Fault`; the state keeps the list of them.
-/
import Camview.Cec
import Mathlib.Logic.Function.Basic

namespace Camview.Cec.Sessions

/-! ## State -/

/-- What has been done to `message_queue_mutex`. -/
inductive Mutex
  /-- it is a static variable that was never initialised -/
  | static
  | initialised
  | destroyed
deriving DecidableEq, Repr

/-- Where a session is. -/
inductive Pc
  /-- before `init_cec_controls` -/
  | outside
  /-- from its return to the call of `stop_cec_controls` -/
  | running
  /-- `if (rx_thread)` -/
  | joining
  /-- `pthread_mutex_destroy` -/
  | destroying
  /-- `if (cec_fd)` -/
  | closing
deriving DecidableEq, Repr

/-- An operation that was not allowed. -/
inductive Fault
  /-- `pthread_join` on a thread already joined -/
  | join
  /-- `pthread_mutex_lock` while the mutex is not initialised -/
  | lock
  /-- `pthread_mutex_destroy` while the mutex is not initialised -/
  | destroy
  /-- `close` of a descriptor that is not open -/
  | close
  /-- a message of an earlier session was processed -/
  | leftover
deriving DecidableEq, Repr

/-- A node of the queue, and the session it was added in. -/
structure Node where
  msg : Message
  session : Nat
deriving DecidableEq, Repr

/-- The static variables, what the system knows of them (`mutex`, `joinable`,
`running`, `isOpen`), the number of the session and whether its initialisation
succeeded, and the faults so far. -/
structure State where
  cecFd : Int
  /-- `none` while it is 0 -/
  rxThread : Option Nat
  rxRun : Bool
  messageQueue : List Node
  mutex : Mutex
  /-- the thread created last has not been joined -/
  joinable : Bool
  /-- it has not returned from `rx_loop` -/
  running : Bool
  isOpen : Int → Bool
  pc : Pc
  session : Nat
  initOk : Bool
  faults : List Fault

def State.fault (s : State) (f : Fault) : State := { s with faults := s.faults ++ [f] }

/-- `pthread_mutex_lock(&message_queue_mutex)`. -/
def lock (s : State) : State := if s.mutex = .initialised then s else s.fault .lock

/-! ## Functions -/

/-- `init_cec_controls`, when `open` answers `fd`, `tv` says whether
`detect_devices` finds a TV and `pthread_create` stores `thread`. -/
def initCecControls (fd : Int) (tv : Bool) (thread : Nat) (s : State) : State :=
  let s := { s with
    cecFd := fd
    isOpen := if 0 ≤ fd then Function.update s.isOpen fd true else s.isOpen
    pc := .running
    session := s.session + 1
    initOk := false }
  if fd ≤ 0 then s
  else if tv = false then s
  else { s with
    messageQueue := []
    rxRun := true
    mutex := .initialised
    rxThread := some thread
    joinable := true
    running := true
    initOk := true }

/-- `add_message_to_queue`. -/
def addMessageToQueue (msg : CecMsg) (s : State) : State :=
  let s := lock s
  { s with messageQueue := s.messageQueue ++ [⟨.ofMsg msg, s.session⟩] }

/-- The first node is taken off the queue and processed, if there is one. -/
def dequeue (s : State) : State :=
  match s.messageQueue with
  | [] => s
  | node :: rest =>
    let s := { s with messageQueue := rest }
    if node.session = s.session then s else s.fault .leftover

/-- One round of `poll_cec_events`. -/
def pollCecEvents (s : State) : State := dequeue (lock s)

/-- `if (rx_thread) pthread_join(rx_thread, &val)`: `none` while it waits. -/
def joinRxThread (s : State) : Option State :=
  match s.rxThread with
  | none => some { s with pc := .destroying }
  | some _ =>
    if s.joinable = false then some { s.fault .join with pc := .destroying }
    else if s.running then none
    else some { s with joinable := false, pc := .destroying }

/-- `pthread_mutex_destroy(&message_queue_mutex)`. -/
def destroyMutex (s : State) : State :=
  let s := if s.mutex = .initialised then s else s.fault .destroy
  { s with mutex := .destroyed, pc := .closing }

/-- `if (cec_fd) close(cec_fd)`. -/
def closeCecFd (s : State) : State :=
  let s := if s.cecFd = 0 then s
    else if s.isOpen s.cecFd then { s with isOpen := Function.update s.isOpen s.cecFd false }
    else s.fault .close
  { s with pc := .outside }

/-! ## Steps -/

inductive Act
  /-- `init_cec_controls` -/
  | init (fd : Int) (tv : Bool) (thread : Nat)
  /-- `rx_loop` receives `msg` -/
  | receive (msg : CecMsg)
  /-- `rx_loop` returns: `rx_run` is 0, or `select` or `CEC_RECEIVE` failed -/
  | rxReturn
  /-- a round of `poll_cec_events` -/
  | poll
  /-- the call of `stop_cec_controls`, up to `rx_run = 0` -/
  | stop
  | join
  | destroy
  | close

/-- `open` answers -1 or a descriptor that is not in use. -/
def State.CanAnswer (s : State) (fd : Int) : Prop := fd = -1 ∨ 0 ≤ fd ∧ s.isOpen fd = false

instance (s : State) (fd : Int) : Decidable (s.CanAnswer fd) := inferInstanceAs (Decidable (_ ∨ _))

def step (s : State) : Act → Option State
  | .init fd tv thread => if s.pc = .outside ∧ s.CanAnswer fd then some (initCecControls fd tv thread s) else none
  | .receive msg =>
    if s.running = false then none
    else if cecMsgInitiator msg ≠ cecLogAddrTv then some s
    else some (addMessageToQueue msg s)
  | .rxReturn => if s.running then some { s with running := false } else none
  | .poll => if s.pc = .running then some (pollCecEvents s) else none
  | .stop => if s.pc = .running then some { s with rxRun := false, pc := .joining } else none
  | .join => if s.pc = .joining then joinRxThread s else none
  | .destroy => if s.pc = .destroying then some (destroyMutex s) else none
  | .close => if s.pc = .closing then some (closeCecFd s) else none

/-- All sessions from the start of the program, with any outcome of each
`init_cec_controls`. -/
def machine : Machine State Act where
  init s := s.cecFd = 0 ∧ s.rxThread = none ∧ s.messageQueue = [] ∧ s.mutex = .static ∧ s.joinable = false ∧
    s.running = false ∧ (∀ fd, s.isOpen fd = false) ∧ s.pc = .outside ∧ s.initOk = false ∧ s.faults = []
  step := step

/-! ## What is there in which session -/

/-- The mutex, the thread and the descriptor of a session are there only if its
initialisation succeeded, and are then there until `stop_cec_controls` gets to
them. -/
structure Inv (s : State) : Prop where
  mutex : s.mutex = .initialised ↔ s.initOk = true ∧ (s.pc = .running ∨ s.pc = .joining ∨ s.pc = .destroying)
  joinable : s.joinable = true ↔ s.initOk = true ∧ (s.pc = .running ∨ s.pc = .joining)
  running : s.running = true → s.joinable = true
  rxThread : s.initOk = true → s.rxThread ≠ none
  isOpen : s.initOk = true → s.pc ≠ .outside → s.isOpen s.cecFd = true
  queue : s.initOk = true → s.pc ≠ .outside → ∀ node ∈ s.messageQueue, node.session = s.session
  closing : s.initOk = false → s.pc = .closing → s.faults ≠ []

variable {s s' : State}

@[simp] theorem State.faults_fault (f : Fault) : (s.fault f).faults = s.faults ++ [f] := rfl

theorem State.fault_ne_nil (f : Fault) : (s.fault f).faults ≠ [] := by simp

theorem Inv.fault (h : Inv s) (f : Fault) : Inv (s.fault f) :=
  { h with closing := fun _ _ => State.fault_ne_nil f }

/-- The mutex may be locked. -/
theorem lock_eq (hm : s.mutex = .initialised) : lock s = s := if_pos hm

theorem lock_eq_fault (hm : s.mutex ≠ .initialised) : lock s = s.fault .lock := if_neg hm

theorem inv_init (hi : machine.init s) : Inv s := by
  obtain ⟨-, -, -, hm, hj, hr, -, hpc, hok, -⟩ := hi
  constructor <;> simp [*]

/-! ## One lemma for each function -/

theorem Inv.initCecControls (h : Inv s) (hpc : s.pc = .outside) (fd : Int) (tv : Bool) (thread : Nat) :
    (initCecControls fd tv thread s).faults = s.faults ∧ Inv (initCecControls fd tv thread s) := by
  have hm : s.mutex ≠ .initialised := by simp [h.mutex, hpc]
  have hj : s.joinable = false := by simpa [hpc] using h.joinable
  have hr : s.running = false := by simpa [hj] using h.running
  unfold Sessions.initCecControls
  dsimp only
  split
  · exact ⟨rfl, by constructor <;> simp [*]⟩
  next hfd =>
  split
  · exact ⟨rfl, by constructor <;> simp [*]⟩
  · have h0 : 0 ≤ fd := by omega
    exact ⟨rfl, by constructor <;> simp [h0]⟩

/-- `rx_loop` runs only while the mutex is there. -/
theorem Inv.addMessageToQueue (h : Inv s) (hr : s.running = true) (msg : CecMsg) :
    (addMessageToQueue msg s).faults = s.faults ∧ Inv (addMessageToQueue msg s) := by
  obtain ⟨hok, hpc⟩ := h.joinable.1 (h.running hr)
  have hm : s.mutex = .initialised := h.mutex.2 ⟨hok, by tauto⟩
  have hout : s.pc ≠ .outside := by
    intro e
    simp [e] at hpc
  unfold Sessions.addMessageToQueue
  rw [lock_eq hm]
  refine ⟨rfl, { h with queue := fun _ _ node hn => ?_ }⟩
  rcases List.mem_append.1 hn with hn | hn
  · exact h.queue hok hout node hn
  · rw [List.mem_singleton.1 hn]

theorem Inv.dequeue (h : Inv s) : Inv (dequeue s) := by
  unfold Sessions.dequeue
  split
  · exact h
  next node rest hq =>
    have hrest : Inv { s with messageQueue := rest } :=
      { h with queue := fun hok hout n hn => h.queue hok hout n (by simp [hq, hn]) }
    dsimp only
    split
    · exact hrest
    · exact hrest.fault _

theorem dequeue_faults (h : ∀ node ∈ s.messageQueue, node.session = s.session) :
    (dequeue s).faults = s.faults := by
  unfold dequeue
  split
  · rfl
  · next node rest hq =>
    dsimp only
    rw [if_pos (h node (by simp [hq]))]

theorem dequeue_faults_ne_nil (h : s.faults ≠ []) : (dequeue s).faults ≠ [] := by
  unfold dequeue
  split
  · exact h
  dsimp only
  split
  · exact h
  · exact State.fault_ne_nil _

/-- A round of `poll_cec_events` is allowed exactly in a session whose
initialisation succeeded. -/
theorem Inv.pollCecEvents (h : Inv s) (hpc : s.pc = .running) :
    ((pollCecEvents s).faults = [] ↔ s.faults = [] ∧ s.initOk = true) ∧ Inv (pollCecEvents s) := by
  unfold Sessions.pollCecEvents
  cases hok : s.initOk with
  | true =>
    have hm : s.mutex = .initialised := by simp [h.mutex, hok, hpc]
    rw [lock_eq hm, dequeue_faults (h.queue hok (by simp [hpc]))]
    exact ⟨by simp, h.dequeue⟩
  | false =>
    have hm : s.mutex ≠ .initialised := by simp [h.mutex, hok]
    rw [lock_eq_fault hm]
    refine ⟨?_, (h.fault .lock).dequeue⟩
    simp [dequeue_faults_ne_nil (State.fault_ne_nil Fault.lock)]

/-- `pthread_join` is allowed exactly if it is not called or the initialisation
succeeded. -/
theorem Inv.joinRxThread (h : Inv s) (hpc : s.pc = .joining) (hs : joinRxThread s = some s') :
    (s'.faults = [] ↔ s.faults = [] ∧ (s.rxThread = none ∨ s.initOk = true)) ∧ Inv s' := by
  unfold Sessions.joinRxThread at hs
  split at hs
  · next ht =>
    have hok : s.initOk = false := by
      cases hok : s.initOk with
      | false => rfl
      | true => exact absurd ht (h.rxThread hok)
    cases hs
    have hm : s.mutex ≠ .initialised := by simp [h.mutex, hok]
    have hj : s.joinable = false := by simpa [hok] using h.joinable
    have hr : s.running = false := by simpa [hj] using h.running
    exact ⟨by simp [ht], by constructor <;> simp [hm, hj, hr, hok]⟩
  next t ht =>
  split at hs
  · next hj =>
    have hok : s.initOk = false := by simpa [hj, hpc] using h.joinable
    cases hs
    have hm : s.mutex ≠ .initialised := by simp [h.mutex, hok]
    have hr : s.running = false := by simpa [hj] using h.running
    exact ⟨by simp [ht, hok], by constructor <;> simp [State.fault, hm, hj, hr, hok]⟩
  next hj =>
  split at hs
  · cases hs
  next hr =>
    have hok : s.initOk = true := (h.joinable.1 (by simpa using hj)).1
    have hm : s.mutex = .initialised := by simp [h.mutex, hok, hpc]
    cases hs
    refine ⟨by simp [hok], ?_⟩
    have hopen := h.isOpen hok (by simp [hpc])
    have hqueue := h.queue hok (by simp [hpc])
    constructor <;> simp_all

/-- `pthread_mutex_destroy` is allowed exactly if the initialisation succeeded. -/
theorem Inv.destroyMutex (h : Inv s) (hpc : s.pc = .destroying) :
    ((destroyMutex s).faults = [] ↔ s.faults = [] ∧ s.initOk = true) ∧ Inv (destroyMutex s) := by
  have hj : s.joinable = false := by simpa [hpc] using h.joinable
  have hr : s.running = false := by simpa [hj] using h.running
  unfold Sessions.destroyMutex
  cases hok : s.initOk with
  | true =>
    have hm : s.mutex = .initialised := by simp [h.mutex, hok, hpc]
    have ht := h.rxThread hok
    have hopen := h.isOpen hok (by simp [hpc])
    have hqueue := h.queue hok (by simp [hpc])
    rw [if_pos hm]
    exact ⟨by simp, by constructor <;> simp_all⟩
  | false =>
    have hm : s.mutex ≠ .initialised := by simp [h.mutex, hok]
    rw [if_neg hm]
    exact ⟨by simp, by constructor <;> simp [State.fault, hj, hr, hok]⟩

/-- `close` is allowed if nothing was disallowed before it. -/
theorem Inv.closeCecFd (h : Inv s) (hpc : s.pc = .closing) :
    ((closeCecFd s).faults = [] ↔ s.faults = []) ∧ Inv (closeCecFd s) := by
  have hm : s.mutex ≠ .initialised := by simp [h.mutex, hpc]
  have hj : s.joinable = false := by simpa [hpc] using h.joinable
  have hr : s.running = false := by simpa [hj] using h.running
  have ht := h.rxThread
  unfold Sessions.closeCecFd
  dsimp only
  split
  · exact ⟨Iff.rfl, by constructor <;> simp +contextual [hm, hj, hr, ht]⟩
  split
  · exact ⟨Iff.rfl, by constructor <;> simp +contextual [hm, hj, hr, ht]⟩
  next hopen =>
    have hne : s.faults ≠ [] := by
      cases hok : s.initOk with
      | true => exact absurd (h.isOpen hok (by simp [hpc])) hopen
      | false => exact h.closing hok hpc
    exact ⟨by simp [hne], by constructor <;> simp +contextual [State.fault, hm, hj, hr, ht]⟩

/-! ## Runs -/

/-- A round of `poll_cec_events`, and a `stop_cec_controls` from the first of
its operations that needs it, come only in a session whose initialisation
succeeded. -/
def InitSucceeded (s : State) : Act → Prop
  | .join => s.rxThread = none ∨ s.initOk = true
  | .poll | .destroy => s.initOk = true
  | _ => True

theorem Inv.step (h : Inv s) {a : Act} (hs : step s a = some s') :
    (s'.faults = [] ↔ s.faults = [] ∧ InitSucceeded s a) ∧ Inv s' := by
  cases a with
  | init fd tv thread =>
    simp only [Sessions.step, Option.ite_none_right_eq_some, Option.some.injEq] at hs
    obtain ⟨⟨hpc, -⟩, rfl⟩ := hs
    obtain ⟨hf, hi⟩ := h.initCecControls hpc fd tv thread
    exact ⟨by simp [hf, InitSucceeded], hi⟩
  | receive msg =>
    simp only [Sessions.step, Option.ite_none_left_eq_some] at hs
    obtain ⟨hr, hs⟩ := hs
    split at hs
    · cases hs
      exact ⟨by simp [InitSucceeded], h⟩
    · cases hs
      obtain ⟨hf, hi⟩ := h.addMessageToQueue (by simpa using hr) msg
      exact ⟨by simp [hf, InitSucceeded], hi⟩
  | rxReturn =>
    simp only [Sessions.step, Option.ite_none_right_eq_some, Option.some.injEq] at hs
    obtain ⟨-, rfl⟩ := hs
    exact ⟨by simp [InitSucceeded], { h with running := fun e => absurd e Bool.noConfusion }⟩
  | poll =>
    simp only [Sessions.step, Option.ite_none_right_eq_some, Option.some.injEq] at hs
    obtain ⟨hpc, rfl⟩ := hs
    exact h.pollCecEvents hpc
  | stop =>
    simp only [Sessions.step, Option.ite_none_right_eq_some, Option.some.injEq] at hs
    obtain ⟨hpc, rfl⟩ := hs
    refine ⟨by simp [InitSucceeded], ?_⟩
    obtain ⟨h1, h2, h3, h4, h5, h6, h7⟩ := h
    constructor <;> simp_all
  | join =>
    simp only [Sessions.step, Option.ite_none_right_eq_some] at hs
    exact h.joinRxThread hs.1 hs.2
  | destroy =>
    simp only [Sessions.step, Option.ite_none_right_eq_some, Option.some.injEq] at hs
    obtain ⟨hpc, rfl⟩ := hs
    exact h.destroyMutex hpc
  | close =>
    simp only [Sessions.step, Option.ite_none_right_eq_some, Option.some.injEq] at hs
    obtain ⟨hpc, rfl⟩ := hs
    obtain ⟨hf, hi⟩ := h.closeCecFd hpc
    exact ⟨by simp [hf, InitSucceeded], hi⟩

theorem reach_inv (h : machine.Reach s) : Inv s :=
  h.invariant (I := Inv) (fun _ hi => inv_init hi) fun _ _ _ _ hi hs => (hi.step hs).2

/-- **The life cycle of a session.** No thread is joined twice, the mutex is used
only while it is initialised, only an open descriptor is closed and no message is
left over for a later session in exactly the runs that poll and stop only
sessions whose initialisation succeeded. -/
theorem cec_lifecycle (s : State) : machine.Via InitSucceeded s ↔ machine.Reach s ∧ s.faults = [] := by
  refine Machine.via_iff ?_ fun s a s' hr hs => ((reach_inv hr).step hs).1
  intro s ⟨_, _, _, _, _, _, _, _, _, hf⟩
  exact hf

/-- At the start of the program. -/
def initState : State where
  cecFd := 0
  rxThread := none
  rxRun := false
  messageQueue := []
  mutex := .static
  joinable := false
  running := false
  isOpen _ := false
  pc := .outside
  session := 0
  initOk := false
  faults := []

/-- A message is left in the queue of a session; in the next one no TV answers,
and in the one after that the device cannot be opened. -/
theorem not_cec_lifecycle : ∃ s, machine.Reach s ∧ ∀ f, f ∈ s.faults := by
  obtain ⟨s, hs, hp⟩ := Machine.reach_of_exec (M := machine) (s := initState)
    [.init 3 true 1, .receive ⟨4, fun _ => 0⟩, .stop, .rxReturn, .join, .destroy, .close,
      .init 3 false 1, .poll, .stop, .join, .destroy, .close, .init (-1) false 1, .stop, .join, .destroy, .close]
    (fun s => [Fault.join, .lock, .destroy, .close, .leftover].all (s.faults.contains ·))
    ⟨rfl, rfl, rfl, rfl, rfl, rfl, fun _ => rfl, rfl, rfl, rfl⟩ (by decide)
  refine ⟨s, hs, fun f => ?_⟩
  simp only [List.all_cons, List.all_nil, Bool.and_true, Bool.and_eq_true, List.contains_iff_mem] at hp
  cases f <;> simp [hp]

end Camview.Cec.Sessions
