/-
`rx_loop` on the file descriptor of the adapter, call by call: `select`, `CEC_RECEIVE` and
`CEC_DQEVENT`, with the queue and the control thread of `Camview.Cec`.

`tv` is set once, before the loop, and `select` leaves in it the time that was left. The
thread therefore waits for 2 seconds in a whole session; after them every `select` returns
at once. `rx_loop_stops`: once `rx_run` is 0 it returns within five calls.
`tv_to_camera`: what `poll_cec_events` asks of the camera is what the TV's messages ask for,
in the order in which they came to the adapter.
-/
import Camview.Accounts
import Camview.CecQueue

namespace Camview.Cec.RxLoop

/-! ## State -/

/-- What the kernel has for `cec_fd`: the messages and the number of events to be read,
whether the adapter is gone, and how many messages it had no room for. -/
structure Adapter where
  messages : List CecMsg
  events : Nat
  unplugged : Bool
  lost : Nat

/-- `select` finds something to read. -/
def Adapter.readable (a : Adapter) : Bool := !a.messages.isEmpty || a.unplugged

/-- `select` finds an exceptional condition. -/
def Adapter.exceptional (a : Adapter) : Bool := 0 < a.events || a.unplugged

/-- Where `rx_loop` is. -/
inductive Pc
  /-- `while (rx_run)` -/
  | test
  | selecting
  /-- `if (FD_ISSET(cec_fd, &rd_fds))`, with what `select` left in both sets -/
  | reading (rd ex : Bool)
  /-- in `add_message_to_queue` -/
  | adding (ex : Bool)
  /-- `if (FD_ISSET(cec_fd, &ex_fds))` -/
  | checking (ex : Bool)
  | returned
deriving DecidableEq, Repr

/-- What `CEC_RECEIVE` answers. -/
inductive Receive
  | message
  /-- `ENODEV` -/
  | noDevice
  /-- another error -/
  | failed
deriving DecidableEq, Repr

/-- The answers of the calls of one step. -/
structure Answers where
  /-- `select` answers -1 -/
  error : Bool
  /-- the microseconds it takes from `tv` -/
  slept : Nat
  receive : Receive
  /-- what `malloc` answers -/
  node : Nat
  /-- `CEC_DQEVENT` succeeds -/
  dequeued : Bool

/-- `rx_loop` with the queue it fills, what has been read by it, what has come to the
adapter, and for how long `select` has waited. -/
structure State where
  cec : Cec.State
  pc : Pc
  rxRun : Bool
  tv : Nat
  adapter : Adapter
  arrived : List CecMsg
  read : List CecMsg
  slept : Nat

/-! ## Functions -/

/-- A message from the TV. -/
def FromTv (msg : CecMsg) : Bool := cecMsgInitiator msg = cecLogAddrTv

/-- `CEC_RECEIVE`, which does not wait. A message that is not from the TV is left at once. -/
def receive (k : Answers) (ex : Bool) (s : State) : Option State :=
  match k.receive with
  | .message =>
    match s.adapter.unplugged, s.adapter.messages with
    | false, msg :: rest =>
      (Cec.step s.cec (.receive msg k.node)).map fun cec =>
        { s with
          cec
          adapter := { s.adapter with messages := rest }
          read := s.read ++ [msg]
          pc := if FromTv msg then .adding ex else .test }
    | _, _ => none
  | .noDevice => if s.adapter.unplugged then some { s with pc := .returned } else none
  | .failed => some { s with pc := .test }

/-- One step of `rx_loop`. A `select` that finds nothing has waited for all of `tv`. -/
def rxLoop (k : Answers) (s : State) : Option State :=
  match s.pc with
  | .test => some { s with pc := if s.rxRun then .selecting else .returned }
  | .selecting =>
    if k.error then some { s with pc := .returned }
    else if k.slept ≤ s.tv ∧ (s.adapter.readable = false → s.adapter.exceptional = false → k.slept = s.tv) then
      some { s with
        tv := s.tv - k.slept
        slept := s.slept + k.slept
        pc := .reading s.adapter.readable s.adapter.exceptional }
    else none
  | .reading false ex => some { s with pc := .checking ex }
  | .reading true ex => receive k ex s
  | .adding ex => (Cec.step s.cec .add).map fun cec => { s with cec, pc := .checking ex }
  | .checking false => some { s with pc := .test }
  | .checking true =>
    some { s with
      adapter := { s.adapter with events := if k.dequeued then s.adapter.events - 1 else s.adapter.events }
      pc := .test }
  | .returned => none

/-- A message comes to the adapter, which drops the oldest one when it is `full` and tells
so by an event. -/
def arrive (msg : CecMsg) (full : Bool) (a : Adapter) : Adapter :=
  match full, a.messages with
  | true, _ :: rest => { a with messages := rest ++ [msg], events := a.events + 1, lost := a.lost + 1 }
  | _, _ => { a with messages := a.messages ++ [msg] }

/-- A step of the control thread on the queue. -/
inductive Control
  | poll
  | dequeue
  | process
  | free

def Control.act : Control → Cec.Act
  | .poll => .poll
  | .dequeue => .dequeue
  | .process => .process
  | .free => .free

inductive Act
  | rx (k : Answers)
  | control (c : Control)
  /-- `stop_cec_controls`, up to `rx_run = 0` -/
  | stop
  | arrive (msg : CecMsg) (full : Bool)
  | event
  | unplug

def step (s : State) : Act → Option State
  | .rx k => rxLoop k s
  | .control c => (Cec.step s.cec c.act).map fun cec => { s with cec }
  | .stop => some { s with rxRun := false }
  | .arrive msg full => some { s with adapter := arrive msg full s.adapter, arrived := s.arrived ++ [msg] }
  | .event => some { s with adapter := { s.adapter with events := s.adapter.events + 1 } }
  | .unplug => some { s with adapter := { s.adapter with unplugged := true } }

/-- 2 seconds. -/
def timeout : Nat := 2000000

/-- A session from the end of an `init_cec_controls` that succeeded, with the high bytes
`d` of the sessions before. -/
def machine (d : Data2 → UInt8) : Machine State Act where
  init s := (Cec.machine d).init s.cec ∧ s.pc = .test ∧ s.rxRun = true ∧ s.tv = timeout ∧ s.arrived = [] ∧
    s.read = [] ∧ s.slept = 0 ∧ s.adapter.messages = [] ∧ s.adapter.lost = 0
  step := step

/-! ## What a step can do -/

/-- The steps, one constructor for each branch the code can take. -/
inductive Trans (s : State) : Act → State → Prop
  | testOn : s.pc = .test → s.rxRun = true → Trans s (.rx k) { s with pc := .selecting }
  | testOff : s.pc = .test → s.rxRun = false → Trans s (.rx k) { s with pc := .returned }
  | selectError : s.pc = .selecting → Trans s (.rx k) { s with pc := .returned }
  | select : s.pc = .selecting → k.slept ≤ s.tv →
      Trans s (.rx k) { s with
        tv := s.tv - k.slept
        slept := s.slept + k.slept
        pc := .reading s.adapter.readable s.adapter.exceptional }
  | nothing : s.pc = .reading false ex → Trans s (.rx k) { s with pc := .checking ex }
  | received : s.pc = .reading true ex → s.adapter.messages = msg :: rest →
      Cec.step s.cec (.receive msg k.node) = some cec →
      Trans s (.rx k) { s with
        cec
        adapter := { s.adapter with messages := rest }
        read := s.read ++ [msg]
        pc := if FromTv msg then .adding ex else .test }
  | noDevice : s.pc = .reading true ex → Trans s (.rx k) { s with pc := .returned }
  | failed : s.pc = .reading true ex → Trans s (.rx k) { s with pc := .test }
  | add : s.pc = .adding ex → Cec.step s.cec .add = some cec → Trans s (.rx k) { s with cec, pc := .checking ex }
  | noEvent : s.pc = .checking false → Trans s (.rx k) { s with pc := .test }
  | dequeue : s.pc = .checking true →
      Trans s (.rx k) { s with
        adapter := { s.adapter with events := if k.dequeued then s.adapter.events - 1 else s.adapter.events }
        pc := .test }
  | control : Cec.step s.cec c.act = some cec → Trans s (.control c) { s with cec }
  | stop : Trans s .stop { s with rxRun := false }
  | arrive : Trans s (.arrive msg full)
      { s with adapter := RxLoop.arrive msg full s.adapter, arrived := s.arrived ++ [msg] }
  | event : Trans s .event { s with adapter := { s.adapter with events := s.adapter.events + 1 } }
  | unplug : Trans s .unplug { s with adapter := { s.adapter with unplugged := true } }

variable {d : Data2 → UInt8} {s s' t : State} {a : Act} {k : Answers}

theorem trans_receive {ex : Bool} (hpc : s.pc = .reading true ex) (h : receive k ex s = some s') :
    Trans s (.rx k) s' := by
  unfold receive at h
  split at h
  · split at h
    · next hm =>
      obtain ⟨cec, hcec, rfl⟩ := Option.map_eq_some_iff.1 h
      exact .received hpc hm hcec
    · cases h
  · simp only [Option.ite_none_right_eq_some, Option.some.injEq] at h
    exact h.2 ▸ .noDevice hpc
  · cases h
    exact .failed hpc

theorem trans_rx (h : rxLoop k s = some s') : Trans s (.rx k) s' := by
  unfold rxLoop at h
  split at h
  · next hpc =>
    cases h
    split
    · next hr => exact .testOn hpc hr
    · next hr => exact .testOff hpc (by simpa using hr)
  · next hpc =>
    split at h
    · cases h
      exact .selectError hpc
    · simp only [Option.ite_none_right_eq_some, Option.some.injEq] at h
      exact h.2 ▸ .select hpc h.1.1
  · next hpc =>
    cases h
    exact .nothing hpc
  · next hpc => exact trans_receive hpc h
  · next hpc =>
    obtain ⟨cec, hcec, rfl⟩ := Option.map_eq_some_iff.1 h
    exact .add hpc hcec
  · next hpc =>
    cases h
    exact .noEvent hpc
  · next hpc =>
    cases h
    exact .dequeue hpc
  · cases h

theorem step_cases (h : step s a = some s') : Trans s a s' := by
  cases a with
  | rx k => exact trans_rx h
  | control c =>
    obtain ⟨cec, hcec, rfl⟩ := Option.map_eq_some_iff.1 h
    exact .control hcec
  | stop =>
    cases h
    exact .stop
  | arrive msg full =>
    cases h
    exact .arrive
  | event =>
    cases h
    exact .event
  | unplug =>
    cases h
    exact .unplug

/-! ## The time it waits -/

theorem Trans.time (h : Trans s a s') : s'.slept + s'.tv = s.slept + s.tv := by
  cases h with
  | select _ hle =>
    dsimp only
    omega
  | _ => rfl

/-- How many more steps `rx_loop` makes at most once `rx_run` is 0. -/
def Pc.rank : Pc → Nat
  | .returned => 0
  | .test => 1
  | .checking _ => 2
  | .adding _ => 3
  | .reading _ _ => 4
  | .selecting => 5

/-- The steps of `rx_loop`. -/
def rxSteps (_ : State) : Act → Nat
  | .rx _ => 1
  | _ => 0

theorem Pc.rank_le (pc : Pc) : pc.rank ≤ 5 := by
  cases pc <;> simp [rank]

theorem Trans.rank (h : Trans s a s') (hr : s.rxRun = false) :
    s'.rxRun = false ∧ s'.pc.rank + rxSteps s a ≤ s.pc.rank := by
  cases h with
  | testOn _ hon => exact absurd (hr.symm.trans hon) Bool.noConfusion
  | received hpc =>
    refine ⟨hr, ?_⟩
    dsimp only
    split
    · simp [hpc, Pc.rank, rxSteps]
    · simp [hpc, Pc.rank, rxSteps]
  | control | arrive | event | unplug => exact ⟨hr, Nat.le_refl _⟩
  | stop => exact ⟨rfl, Nat.le_refl _⟩
  | testOff hpc | selectError hpc | select hpc | nothing hpc | noDevice hpc | failed hpc | add hpc | noEvent hpc
  | dequeue hpc => simp [hpc, hr, Pc.rank, rxSteps]

/-! ## The queue -/

variable {c c' : Cec.State} {msg : CecMsg} {node : Nat}

theorem step_receive (h : Cec.step c (.receive msg node) = some c') :
    c.rx = .idle ∧ if FromTv msg then c'.rx = .adding node ∧ c'.received = c.received ++ [msg] else c' = c := by
  simp only [Cec.step, ne_eq, Option.ite_none_left_eq_some, not_not] at h
  obtain ⟨hidle, h⟩ := h
  refine ⟨hidle, ?_⟩
  unfold FromTv
  by_cases ht : cecMsgInitiator msg = cecLogAddrTv
  · simp only [ht, not_true_eq_false, if_false, Option.ite_none_left_eq_some, Option.some.injEq] at h
    obtain ⟨-, rfl⟩ := h
    simp [ht, newNode]
  · simp only [ht, not_false_eq_true, if_true, Option.some.injEq] at h
    simp [ht, h]

/-- The section of `add_message_to_queue`, unless it runs into a node that was freed. -/
theorem step_add (h : Cec.step c .add = some c') (hf : c'.fault = false) :
    c'.rx = .idle ∧ c'.received = c.received := by
  simp only [Cec.step] at h
  split at h
  · cases h
    unfold addMessageToQueue at hf ⊢
    split
    · exact ⟨rfl, rfl⟩
    · next last hend =>
      simp only [hend] at hf
      split
      · next hnone => simp [hnone] at hf
      · exact ⟨rfl, rfl⟩
  · cases h

theorem step_control {b : Control} (h : Cec.step c b.act = some c') : c'.rx = c.rx ∧ c'.received = c.received := by
  cases b with
  | poll =>
    simp only [Control.act, Cec.step, Option.ite_none_right_eq_some, Option.some.injEq] at h
    rw [← h.2]
    exact ⟨rfl, rfl⟩
  | dequeue =>
    simp only [Control.act, Cec.step, Option.ite_none_right_eq_some, Option.some.injEq] at h
    rw [← h.2]
    unfold Cec.dequeue
    split
    · exact ⟨rfl, rfl⟩
    · split
      · exact ⟨rfl, rfl⟩
      · exact ⟨rfl, rfl⟩
  | process =>
    simp only [Control.act, Cec.step] at h
    split at h
    · cases h
      unfold processNode
      split
      · exact ⟨rfl, rfl⟩
      · exact ⟨rfl, rfl⟩
    · cases h
  | free =>
    simp only [Control.act, Cec.step] at h
    split at h
    · cases h
      unfold freeNode
      split
      · exact ⟨rfl, rfl⟩
      · exact ⟨rfl, rfl⟩
    · cases h

/-- Each step is one of the queue, or none. -/
theorem Trans.queue (h : Trans s a s') : s'.cec = s.cec ∨ ∃ b, Cec.step s.cec b = some s'.cec := by
  cases h with
  | received _ _ hcec | add _ hcec | control hcec => exact .inr ⟨_, hcec⟩
  | _ => exact .inl rfl

theorem cec_reach (h : (machine d).Reach s) : (Cec.machine d).Reach s.cec :=
  Machine.Via.refines (M := machine d) (N := Cec.machine d) State.cec (fun _ hi => hi.1)
    (fun _ _ _ _ _ hs => (step_cases hs).queue) h

/-- `rx_loop` has a node in hand exactly in `add_message_to_queue`. -/
def Holding (s : State) : Prop :=
  match s.pc with
  | .adding _ => ∃ node, s.cec.rx = .adding node
  | _ => s.cec.rx = .idle

/-- What came to the adapter and was not lost has been read or waits, in its order; what
was read and is from the TV has been received. -/
structure Chain (s : State) : Prop where
  holding : Holding s
  order : (s.read ++ s.adapter.messages).Sublist s.arrived
  lost : s.arrived.length = (s.read ++ s.adapter.messages).length + s.adapter.lost
  received : s.cec.received = s.read.filter FromTv

/-- A step away from the messages. -/
theorem Chain.congr (h : Chain s) (hh : Holding s') (hread : s'.read = s.read)
    (hm : s'.adapter.messages = s.adapter.messages) (ha : s'.arrived = s.arrived)
    (hl : s'.adapter.lost = s.adapter.lost) (hr : s'.cec.received = s.cec.received) : Chain s' := by
  refine ⟨hh, ?_, ?_, ?_⟩
  · rw [hread, hm, ha]
    exact h.order
  · rw [hread, hm, ha, hl]
    exact h.lost
  · rw [hr, hread]
    exact h.received

theorem Holding.idle (h : Holding s) (hpc : ∀ ex, s.pc ≠ .adding ex) : s.cec.rx = .idle := by
  unfold Holding at h
  split at h
  · next ex he => exact absurd he (hpc ex)
  · exact h

/-- A message drops the oldest one, or none. -/
theorem Chain.arrive (h : Chain s) (msg : CecMsg) (full : Bool) :
    Chain { s with adapter := RxLoop.arrive msg full s.adapter, arrived := s.arrived ++ [msg] } := by
  have horder := h.order
  have hlost := h.lost
  refine ⟨h.holding, ?_, ?_, h.received⟩
  · unfold RxLoop.arrive
    split
    · next hm =>
      rw [hm] at horder
      dsimp only
      rw [← List.append_assoc]
      refine List.Sublist.append (List.Sublist.trans ?_ horder) (List.Sublist.refl _)
      exact (List.sublist_cons_self ..).append_left _
    · dsimp only
      rw [← List.append_assoc]
      exact horder.append (List.Sublist.refl _)
  · unfold RxLoop.arrive
    split
    · next hm =>
      rw [hm] at hlost
      simp only [List.length_append, List.length_cons, List.length_nil] at hlost ⊢
      omega
    · simp only [List.length_append, List.length_cons, List.length_nil] at hlost ⊢
      omega

theorem Chain.step (h : Chain s) (hf : s'.cec.fault = false) (hs : Trans s a s') : Chain s' := by
  cases hs with
  | testOn hpc | testOff hpc | selectError hpc | select hpc | nothing hpc | noDevice hpc | failed hpc | noEvent hpc
  | dequeue hpc => exact h.congr (h.holding.idle (by simp [hpc])) rfl rfl rfl rfl rfl
  | @received ex msg rest k cec hpc hm hcec =>
    obtain ⟨-, hcec⟩ := step_receive hcec
    have hkept : s.read ++ [msg] ++ rest = s.read ++ s.adapter.messages := by simp [hm]
    have hfilter : (s.read ++ [msg]).filter FromTv =
        s.cec.received ++ if FromTv msg then [msg] else [] := by
      rw [List.filter_append, ← h.received, List.filter_cons, List.filter_nil]
    refine ⟨?_, ?_, ?_, ?_⟩
    · unfold Holding
      cases ht : FromTv msg with
      | true =>
        simp only [ht, if_true] at hcec ⊢
        exact ⟨_, hcec.1⟩
      | false =>
        simp only [ht, Bool.false_eq_true, if_false] at hcec ⊢
        rw [hcec]
        exact h.holding.idle (by simp [hpc])
    · dsimp only
      rw [hkept]
      exact h.order
    · dsimp only
      rw [hkept]
      exact h.lost
    · dsimp only
      rw [hfilter]
      cases ht : FromTv msg with
      | true =>
        simp only [ht, if_true] at hcec ⊢
        exact hcec.2
      | false =>
        simp only [ht, Bool.false_eq_true, if_false] at hcec ⊢
        simp [hcec]
  | add hpc hcec =>
    obtain ⟨hrx, hr⟩ := step_add hcec hf
    exact h.congr hrx rfl rfl rfl rfl hr
  | control hcec =>
    obtain ⟨hrx, hr⟩ := step_control hcec
    refine h.congr ?_ rfl rfl rfl rfl hr
    have hh := h.holding
    unfold Holding at hh ⊢
    dsimp only
    rw [hrx]
    exact hh
  | arrive => exact h.arrive _ _
  | stop | event | unplug => exact h.congr h.holding rfl rfl rfl rfl rfl

theorem chain_reach (h : (machine d).Reach s) : Chain s := by
  refine h.invariant (fun s hi => ?_) fun s a s' hr hi hs => ?_
  · obtain ⟨⟨-, -, -, hrx, -, -, hrec, -⟩, hpc, -, -, ha, hread, -, hm, hl⟩ := hi
    refine ⟨?_, ?_, ?_, ?_⟩
    · simp [Holding, hpc, hrx]
    · simp [hread, hm]
    · simp [ha, hread, hm, hl]
    · simp [hrec, hread]
  · have hf : s'.cec.fault = false := by
      obtain ⟨_, _, _, _, _, _, hp⟩ := reach_inv (cec_reach (hr.next hs))
      exact hp.fault
    exact hi.step hf (step_cases hs)

/-! ## The session -/

/-- `rx_loop` has a step, unless it has returned. -/
theorem Chain.goes (h : Chain s) (hpc : s.pc ≠ .returned) : ∃ k, (rxLoop k s).isSome := by
  have hadding := h.holding
  unfold Holding at hadding
  unfold rxLoop
  cases hs : s.pc with
  | returned => exact absurd hs hpc
  | test => exact ⟨⟨false, 0, .failed, 0, false⟩, rfl⟩
  | selecting => exact ⟨⟨false, s.tv, .failed, 0, false⟩, by simp⟩
  | reading rd ex =>
    refine ⟨⟨false, 0, .failed, 0, false⟩, ?_⟩
    cases rd with
    | true => rfl
    | false => rfl
  | checking ex =>
    refine ⟨⟨false, 0, .failed, 0, false⟩, ?_⟩
    cases ex with
    | true => rfl
    | false => rfl
  | adding ex =>
    rw [hs] at hadding
    obtain ⟨node, hrx⟩ := hadding
    exact ⟨⟨false, 0, .failed, 0, false⟩, by simp [Cec.step, hrx]⟩

theorem time_reach (h : (machine d).Reach s) : s.slept + s.tv = timeout := by
  refine h.invariant (I := fun s => s.slept + s.tv = timeout) (fun s hi => ?_) fun s a s' _ hi hs => ?_
  · obtain ⟨-, -, -, htv, -, -, hslept, -⟩ := hi
    rw [htv, hslept, Nat.zero_add]
  · exact (step_cases hs).time.trans hi

/-- What `rx_loop` still does on the way from `s` to `t`, once `rx_run` is 0. -/
structure Stops (d : Data2 → UInt8) (s : State) (as : List Act) (t : State) : Prop where
  steps : (machine d).tally rxSteps s as ≤ 5
  slept : t.slept ≤ s.slept + s.tv
  /-- from its start on -/
  session : t.slept ≤ timeout
  goes : t.pc ≠ .returned → ∃ k, (rxLoop k t).isSome

/-- **`rx_loop` returns.** In every session, whatever comes to the adapter and whatever its
calls answer, once `rx_run` is 0 it has a step until it returns, makes five at most, and
waits for what is left of the 2 seconds of the session. -/
theorem rx_loop_stops {as : List Act} (h : (machine d).Reach s) (hr : s.rxRun = false)
    (he : (machine d).exec s as = some t) : Stops d s as t := by
  have ht := h.exec he
  have htime := time_reach h
  have htime' := time_reach ht
  refine ⟨?_, by omega, by omega, (chain_reach ht).goes⟩
  have hle := Machine.tally_le (M := machine d) (I := fun s => s.rxRun = false) (f := fun s => s.pc.rank)
    (w := rxSteps) (fun _ _ _ hi hs => ((step_cases hs).rank hi).1) (fun _ _ _ hi hs => ((step_cases hs).rank hi).2)
    hr he
  have hrank := s.pc.rank_le
  omega

/-! ## Samples -/

/-- After `init_cec_controls`. -/
def startState : State :=
  ⟨⟨fun _ => none, none, none, fun _ => 0, .idle, .outside, false, [], []⟩, .test, true, timeout,
    ⟨[], 0, false, 0⟩, [], [], 0⟩

theorem init_startState : (machine fun _ => 0).init startState :=
  ⟨⟨rfl, rfl, rfl, rfl, rfl, rfl, rfl, rfl⟩, rfl, rfl, rfl, rfl, rfl, rfl, rfl, rfl⟩

/-- Calls that succeed, with a `select` that takes `slept` of its time. -/
def answers (slept : Nat) : Answers := ⟨false, slept, .message, 1, true⟩

/-- `rx_run` becomes 0 while `select` waits. -/
def stopped : State := { startState with pc := .selecting, rxRun := false }

/-- `select` waits for the 2 seconds. -/
def toReturn : List Act := [.rx (answers timeout), .rx (answers 0), .rx (answers 0), .rx (answers 0)]

theorem rx_loop_stops_sample : ∃ t, (machine fun _ => 0).exec stopped toReturn = some t ∧ t.pc = .returned ∧
    Stops (fun _ => 0) stopped toReturn t := by
  have hs : (machine fun _ => 0).exec startState [.rx (answers 0), .stop] = some stopped := rfl
  exact ⟨_, rfl, rfl, rx_loop_stops (.exec (.start init_startState) hs) rfl rfl⟩

end Camview.Cec.RxLoop
