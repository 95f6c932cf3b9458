/-
The capture device over the whole program: `main` opens, sets up and closes it, the
capture thread streams from it, the control thread sets controls on it, and its buffers
go round between the driver and the decoder.

What V4L2 promises is in the steps: a buffer that is dequeued was queued while the
stream was on, and has no more bytes than `VIDIOC_QUERYBUF` said. The runs are those in
which `pthread_timedjoin_np` does not time out; `Camview.TeardownExact` is about the others.
-/
import Camview.CaptureBuffers
import Camview.Teardown

namespace Camview.VideoDevice

open Capture (Answers mapBuffer unmapBuffers)
open Main (Outcome)
open Teardown (CapturePc ControlPc captureNext captureClears controlNext)

/-! ## State -/

/-- The device as the kernel keeps it for the descriptor. -/
structure Device where
  isOpen : Bool
  streaming : Bool
  queued : List (Fin 3)
  /-- what `VIDIOC_QUERYBUF` said -/
  length : Fin 3 → UInt32

def Device.closed : Device := ⟨false, false, [], fun _ => 0⟩

/-- What `VIDIOC_DQBUF` fills in. -/
structure Buffer where
  index : Fin 3
  bytesused : UInt32
deriving DecidableEq, Repr

inductive Fault
  /-- `open` with a descriptor at hand, which is lost -/
  | openedTwice
  /-- a call with a descriptor that is closed -/
  | notOpen
  /-- `VIDIOC_DQBUF` or `VIDIOC_STREAMOFF` without a stream -/
  | notStreaming
  /-- `VIDIOC_QBUF` of a buffer that is queued -/
  | queuedTwice
  /-- the decoder reads what the driver may write -/
  | notOwned
  /-- it reads outside of the mappings -/
  | notMapped
deriving DecidableEq, Repr

/-- `buf` is the buffer the capture thread is at. The history is the buffers that were
queued while the session was set up, those out of the cycle (not queued again, or given
back by `VIDIOC_STREAMOFF`), and the faults. -/
structure State where
  main : Main.State
  capture : CapturePc
  control : ControlPc
  mem : Capture.State
  device : Device
  buf : Option Buffer
  given : List (Fin 3)
  out : List (Fin 3)
  faults : List Fault

/-! ## Calls -/

def State.require (s : State) (p : Prop) [Decidable p] (f : Fault) : State :=
  if p then s else { s with faults := s.faults ++ [f] }

def State.uses (s : State) : State := s.require (s.device.isOpen = true) .notOpen

def State.opens (s : State) : State :=
  { s.require (s.device.isOpen = false) .openedTwice with device := { Device.closed with isOpen := true } }

def State.closes (s : State) : State :=
  { s.uses with device := .closed, given := [], out := [] }

/-- `VIDIOC_QBUF` of buffer `i`. -/
def State.queues (s : State) (o : Outcome) (i : Fin 3) : State :=
  let s := s.uses.require (i ∉ s.device.queued) .queuedTwice
  if o = .ok then { s with device := { s.device with queued := s.device.queued ++ [i] } } else s

/-- `VIDIOC_QUERYBUF` and `mmap` of buffer `i`. -/
def State.asks (s : State) (a : Answers) (i : Fin 3) : State :=
  { s.uses with
    mem := mapBuffer a i s.mem
    device := { s.device with length := Function.update s.device.length i (a.querybuf.getD (s.device.length i)) } }

/-- The calls for buffer `i` while the session is set up; the device is closed if no
buffer was queued. -/
def State.queries (s : State) (a : Answers) (i : Fin 3) (mapped : Bool) : State :=
  let s := s.asks a i
  if a.area.isSome then
    if a.qbuf then { s.queues .ok i with given := s.given ++ [i] }
    else if mapped then s.queues .fail i else (s.queues .fail i).closes
  else if mapped then s else s.closes

/-- The bytes of the buffer are in a mapping. -/
def State.covers (s : State) (b : Buffer) : Prop :=
  ∃ area ∈ s.mem.ledger.held, area.addr = s.mem.memoryMap b.index ∧ b.bytesused ≤ area.length

instance (s : State) (b : Buffer) : Decidable (s.covers b) := Multiset.decidableExistsMultiset

/-- `hw_decode_jpeg_main` reads the buffer, which the driver must not have. -/
def State.reads (s : State) (b : Buffer) : State :=
  (s.require (b.index ∉ s.device.queued) .notOwned).require (s.covers b) .notMapped

/-! ## Steps -/

def mainEffect (o : Outcome) (s : State) : State :=
  match s.main.pc with
  | .opening => if o = .ok then s.opens else s
  | .enumerating => if o = .fail then s.uses.closes else s.uses
  | .setting => s.uses
  | .getting | .requesting => if o = .ok then s.uses else s.uses.closes
  | .createCapture => { s with capture := .streamOn }
  | .createControl => { s with control := .loading }
  | .unmapping => { s with mem := unmapBuffers (List.finRange 3) s.mem }
  | .closing => s.closes
  | _ => s

/-- A join takes place once the thread has ended. -/
def joins (o : Outcome) (s : State) : Bool :=
  match s.main.pc with
  | .joinCapture => o == .ok && s.capture == .ended
  | .joinControl => o == .ok && s.control == .ended
  | .querying _ _ => false
  | _ => true

/-- A step of `main`, other than the calls for a buffer. -/
def mainStep (o : Outcome) (s : State) : Option State :=
  if joins o s then (Main.mainStep o s.main).map fun m => { mainEffect o s with main := m } else none

def queryStep (a : Answers) (s : State) : Option State :=
  match s.main.pc with
  | .querying i mapped =>
    if h : i < 3 then
      (Main.mainStep (if a.queued then .ok else .fail) s.main).map fun m =>
        { s.queries a ⟨i, h⟩ mapped with main := m }
    else none
  | _ => none

/-- What `capture_loop` does with the device; `b` is what `VIDIOC_DQBUF` answers. -/
def captureEffect (o : Outcome) (b : Buffer) (s : State) : State :=
  match s.capture with
  | .streamOn =>
    if o = .ok then { s.uses with device := { s.device with streaming := true } } else s.uses
  | .dequeuing =>
    let s := s.uses.require (s.device.streaming = true) .notStreaming
    if o = .ok then
      { s with buf := some b, device := { s.device with queued := s.device.queued.erase b.index } }
    else s
  | .copying | .decoding =>
    match s.buf with
    | some b => s.reads b
    | none => s
  | .queuing =>
    match s.buf with
    | some b => { s.queues o b.index with buf := none, out := if o = .ok then s.out else s.out ++ [b.index] }
    | none => s
  | .streamOff =>
    let s := s.uses.require (s.device.streaming = true) .notStreaming
    if o = .ok then
      { s with device := { s.device with streaming := false, queued := [] }, out := s.out ++ s.device.queued }
    else s
  | _ => s

/-- What the driver may answer to `VIDIOC_DQBUF`. -/
def delivers (o : Outcome) (b : Buffer) (s : State) : Prop :=
  s.capture = .dequeuing → o = .ok →
    s.device.streaming = true ∧ b.index ∈ s.device.queued ∧ b.bytesused ≤ s.device.length b.index

instance (o : Outcome) (b : Buffer) (s : State) : Decidable (delivers o b s) :=
  inferInstanceAs (Decidable (_ → _ → _))

def captureStep (o : Outcome) (b : Buffer) (s : State) : Option State :=
  if delivers o b s then
    (captureNext s.main.captureLoopRun o s.capture).map fun pc =>
      { captureEffect o b s with capture := pc, main := captureClears s.capture s.main }
  else none

def controlStep (o : Outcome) (s : State) : Option State :=
  (controlNext s.main.controlLoopRun false o s.control).map fun pc =>
    { if s.control.uses = some .videoDevice then s.uses else s with control := pc }

inductive Act
  | main (o : Outcome)
  /-- the calls for a buffer, with their answers -/
  | query (a : Answers)
  /-- the SIGINT handler begins or goes on -/
  | signal
  | handle
  | capture (o : Outcome) (b : Buffer)
  | control (o : Outcome)
deriving DecidableEq, Repr

def step (s : State) : Act → Option State
  | .main o => mainStep o s
  | .query a => queryStep a s
  | .signal => (Main.step s.main .signal).map fun m => { s with main := m }
  | .handle => (Main.step s.main .handle).map fun m => { s with main := m }
  | .capture o b => captureStep o b s
  | .control o => controlStep o s

/-- The program from the call of `signal` on. -/
def machine : Machine State Act where
  init s := Main.machine.init s.main ∧ s.capture = .unborn ∧ s.control = .unborn ∧ s.mem = Capture.initState ∧
    s.device = .closed ∧ s.buf = none ∧ s.given = [] ∧ s.out = [] ∧ s.faults = []
  step := step

/-! ## Where main and the threads are -/

/-- `main` has the descriptor. -/
def opened : Main.Pc → Bool
  | .starting | .top | .opening | .closingHw | .stoppingCec | .stopping | .ended => false
  | _ => true

/-- What was mapped for the session is mapped. -/
def mapped : Main.Pc → Bool
  | .querying _ _ | .initCec | .initHw | .runCapture | .runControl | .createCapture | .createControl | .sleeping
  | .testCapture | .testControl | .joinCapture | .cancelCapture | .joinControl | .cancelControl | .unmapping => true
  | _ => false

/-- A buffer has been queued for the session. -/
def session : Main.Pc → Bool
  | .querying i mapped => i != 0 || mapped
  | .initCec | .initHw | .runCapture | .runControl | .createCapture | .createControl | .sleeping | .testCapture
  | .testControl | .joinCapture | .cancelCapture | .joinControl | .cancelControl | .unmapping | .closing => true
  | _ => false

/-- There may be a capture thread. -/
def captures : Main.Pc → Bool
  | .createControl | .sleeping | .testCapture | .testControl | .joinCapture => true
  | _ => false

/-- There may be a control thread. -/
def controls : Main.Pc → Bool
  | .sleeping | .testCapture | .testControl | .joinCapture | .cancelCapture | .joinControl => true
  | _ => false

/-- The buffers before this one have been queried. -/
def limit : Main.Pc → Nat
  | .starting | .top | .opening | .enumerating | .setting | .getting | .requesting => 0
  | .querying i _ => i
  | .closingHw | .stoppingCec | .stopping | .ended => 0
  | _ => 3

def alive : CapturePc → Bool
  | .unborn | .ended => false
  | _ => true

def controlAlive : ControlPc → Bool
  | .unborn | .ended => false
  | _ => true

/-- The stream is on. -/
def streams : CapturePc → Bool
  | .unborn | .streamOn | .returning | .ended => false
  | .clearingCapture next | .clearingControl next => streams next
  | _ => true

/-- The thread is at a buffer. -/
def holds : CapturePc → Bool
  | .copying | .locking | .taking | .waiting | .woken | .decoding | .putting | .queuing => true
  | .clearingCapture next | .clearingControl next => holds next
  | _ => false

/-- The buffer the program has. -/
def State.inHand (s : State) : List (Fin 3) := (s.buf.map Buffer.index).toList

/-- The descriptor is open exactly where `main` has it, the threads are there only
then; the buffers given are with the driver, at hand or out of the cycle, and mapped
with the length the driver said. -/
structure Inv (s : State) : Prop where
  faults : s.faults = []
  isOpen : s.device.isOpen = opened s.main.pc
  capture : alive s.capture = true → captures s.main.pc = true
  control : controlAlive s.control = true → controls s.main.pc = true
  streaming : streams s.capture = true → s.device.streaming = true
  buf : s.buf.isSome = holds s.capture
  fits : ∀ b ∈ s.buf, b.bytesused ≤ s.device.length b.index
  cycle : (s.device.queued ++ s.inHand ++ s.out).Perm s.given
  nodup : s.given.Nodup
  below : ∀ i ∈ s.given, i.val < limit s.main.pc
  first : session s.main.pc = true → 0 ∈ s.given
  live : mapped s.main.pc = true → ∀ i ∈ s.given, ⟨s.mem.memoryMap i, s.device.length i⟩ ∈ s.mem.ledger.held

variable {s s' : State} {m : Main.State} {o : Outcome} {b : Buffer}

theorem require_of {p : Prop} [Decidable p] {f : Fault} (h : p) : s.require p f = s := if_pos h

theorem uses_of (h : s.device.isOpen = true) : s.uses = s := require_of h

theorem closes_of (h : s.device.isOpen = true) : s.closes = { s with device := .closed, given := [], out := [] } := by
  rw [State.closes, uses_of h]

/-- A buffer that was not queued is queued without a fault. -/
theorem queues_of {i : Fin 3} (h : s.device.isOpen = true) (hi : i ∉ s.device.queued) :
    s.queues o i =
      if o = .ok then { s with device := { s.device with queued := s.device.queued ++ [i] } } else s := by
  unfold State.queues
  rw [uses_of h, require_of hi]

theorem alive_of_streams {pc : CapturePc} (h : streams pc = true) : alive pc = true := by
  cases pc <;> first | rfl | cases h

theorem alive_of_holds {pc : CapturePc} (h : holds pc = true) : alive pc = true := by
  cases pc <;> first | rfl | cases h

theorem opened_of_captures {pc : Main.Pc} (h : captures pc = true) : opened pc = true ∧ mapped pc = true := by
  cases pc <;> first | exact ⟨rfl, rfl⟩ | cases h

theorem opened_of_session {pc : Main.Pc} (h : session pc = true) : opened pc = true := by
  cases pc <;> first | rfl | cases h

theorem opened_of_controls {pc : Main.Pc} (h : controls pc = true) : opened pc = true := by
  cases pc <;> first | rfl | cases h

theorem Inv.buf_none (h : Inv s) (hc : alive s.capture = false) : s.buf = none := by
  have hb : s.buf.isSome = false := by
    rw [h.buf]
    by_contra hne
    exact absurd (alive_of_holds (Bool.eq_true_of_not_eq_false hne)) (by simp [hc])
  simpa using hb

/-! ## Steps of main -/

/-- From one point to another where nothing less may be assumed. -/
structure Moves (pc pc' : Main.Pc) : Prop where
  opened : opened pc' = opened pc
  captures : captures pc = true → captures pc' = true
  controls : controls pc = true → controls pc' = true
  limit : limit pc ≤ limit pc'
  session : session pc' = true → session pc = true
  mapped : mapped pc' = true → mapped pc = true ∨ VideoDevice.limit pc = 0

/-- The steps of `main` that leave the device and the threads as they are. -/
def steady (o : Outcome) : Main.Pc → Bool
  | .opening => o != .ok
  | .enumerating => o != .fail
  | .getting | .requesting => o == .ok
  | .querying _ _ | .createCapture | .createControl | .joinCapture | .joinControl | .unmapping | .closing => false
  | _ => true

theorem mainStep_moves {n m : Main.State} (hs : Main.mainStep o n = some m) (h : steady o n.pc = true) :
    Moves n.pc m.pc := by
  obtain ⟨d, c, k, pc, hd, cr, sessions, g, f⟩ := n
  cases pc with
  | querying | createCapture | createControl | joinCapture | joinControl | unmapping | closing => cases h
  | ended => cases hs
  | opening | enumerating | getting | requesting =>
    cases o with
    | ok | other | fail =>
      first
      | cases h
        done
      | cases hs
        refine ⟨rfl, ?_, ?_, ?_, ?_, ?_⟩ <;>
      simp [captures, controls, limit, session, mapped, Main.State.goto]
  | top =>
    cases d <;> cases hs <;> refine ⟨rfl, ?_, ?_, ?_, ?_, ?_⟩ <;>
      simp [captures, controls, limit, session, mapped, Main.State.goto]
  | testCapture =>
    cases c <;> cases hs <;> refine ⟨rfl, ?_, ?_, ?_, ?_, ?_⟩ <;>
      simp [captures, controls, limit, session, mapped, Main.State.goto]
  | testControl =>
    cases k <;> cases hs <;> refine ⟨rfl, ?_, ?_, ?_, ?_, ?_⟩ <;>
      simp [captures, controls, limit, session, mapped, Main.State.goto]
  | starting | setting | initCec | initHw | runCapture | runControl | sleeping | cancelCapture | cancelControl | closingHw
  | stoppingCec | stopping =>
    cases hs
    refine ⟨rfl, ?_, ?_, ?_, ?_, ?_⟩ <;>
      simp [captures, controls, limit, session, mapped, Main.State.goto]

/-- `main` goes on; a thread that may not be there any more is not. -/
theorem Inv.goto (h : Inv s) (hm : Moves s.main.pc m.pc) : Inv { s with main := m } :=
  { h with
    isOpen := h.isOpen.trans hm.opened.symm
    capture := fun ha => hm.captures (h.capture ha)
    control := fun ha => hm.controls (h.control ha)
    below := fun i hi => Nat.lt_of_lt_of_le (h.below i hi) hm.limit
    first := fun hp => h.first (hm.session hp)
    live := by
      intro hp i hi
      rcases hm.mapped hp with hp | h0
      · exact h.live hp i hi
      · have hlt := h.below i hi
        omega }

theorem Moves.refl (pc : Main.Pc) : Moves pc pc := ⟨rfl, id, id, Nat.le_refl _, id, .inl⟩

/-- The handler and the flags leave `main` where it is. -/
theorem Inv.congr (h : Inv s) (hm : m.pc = s.main.pc) : Inv { s with main := m } := h.goto (hm ▸ .refl _)

theorem Inv.not_alive (h : Inv s) (hp : captures s.main.pc = false) : alive s.capture = false := by
  by_contra hne
  exact absurd (h.capture (Bool.eq_true_of_not_eq_false hne)) (by simp [hp])

theorem Inv.not_controlAlive (h : Inv s) (hp : controls s.main.pc = false) : controlAlive s.control = false := by
  by_contra hne
  exact absurd (h.control (Bool.eq_true_of_not_eq_false hne)) (by simp [hp])

/-- A step of `main` without effect. -/
theorem mainEffect_steady (h : Inv s) (hs : steady o s.main.pc = true) : mainEffect o s = s := by
  have hopen := h.isOpen
  unfold mainEffect
  cases hpc : s.main.pc with
  | querying | createCapture | createControl | joinCapture | joinControl | unmapping | closing =>
    simp [hpc, steady] at hs
  | opening | enumerating | setting | getting | requesting =>
    rw [hpc] at hs hopen
    simp_all [steady, opened, uses_of]
  | _ => rfl

/-- The device is closed where there are no threads. -/
theorem Inv.closes (h : Inv s) (hopen : opened s.main.pc = true) (hm : opened m.pc = false)
    (hcap : captures s.main.pc = false) (hctl : controls s.main.pc = false) : Inv { s.closes with main := m } := by
  rw [closes_of (h.isOpen.trans hopen)]
  have hcap := h.not_alive hcap
  have hctl := h.not_controlAlive hctl
  have hbuf := h.buf_none hcap
  exact {
    faults := h.faults
    isOpen := hm.symm
    capture := by simp [hcap]
    control := by simp [hctl]
    streaming := fun hs => absurd (alive_of_streams hs) (by simp [hcap])
    buf := h.buf
    fits := by simp [hbuf]
    cycle := by simp [State.inHand, hbuf, Device.closed]
    nodup := List.nodup_nil
    below := by simp
    first := fun hp => absurd (opened_of_session hp) (by simp [hm])
    live := by simp }

/-- Nothing has been given before the buffers are queried. -/
theorem Inv.given_nil (h : Inv s) (hl : limit s.main.pc = 0) : s.given = [] ∧ s.device.queued = [] ∧ s.out = [] := by
  have hgiven : s.given = [] := List.eq_nil_iff_forall_not_mem.2 fun i hi => by
    have hlt := h.below i hi
    omega
  have hlen := h.cycle.length_eq
  simp only [hgiven, List.length_append, List.length_nil] at hlen
  exact ⟨hgiven, List.length_eq_zero_iff.1 (by omega), List.length_eq_zero_iff.1 (by omega)⟩

theorem Inv.opens (h : Inv s) (hs : s.main.pc = .opening) (hm : m.pc = .enumerating) :
    Inv { s.opens with main := m } := by
  have hclosed : s.device.isOpen = false := by rw [h.isOpen, hs]; rfl
  have hcap := h.not_alive (by rw [hs]; rfl)
  have hctl := h.not_controlAlive (by rw [hs]; rfl)
  have hbuf := h.buf_none hcap
  obtain ⟨hgiven, -, hout⟩ := h.given_nil (by rw [hs]; rfl)
  unfold State.opens
  rw [require_of hclosed]
  exact {
    faults := h.faults
    isOpen := by rw [hm]; rfl
    capture := by simp [hcap]
    control := by simp [hctl]
    streaming := fun hs => absurd (alive_of_streams hs) (by simp [hcap])
    buf := h.buf
    fits := by simp [hbuf]
    cycle := by simp [State.inHand, hbuf, hgiven, hout, Device.closed]
    nodup := h.nodup
    below := by simp [hgiven]
    first := by rw [hm]; exact Bool.noConfusion
    live := by simp [hgiven] }

/-- The mappings are not needed once there is no capture thread. -/
theorem Inv.unmaps (h : Inv s) (hs : s.main.pc = .unmapping) (hm : m.pc = .closing) (mem : Capture.State) :
    Inv { s with mem := mem, main := m } :=
  { h.goto (m := m) (by rw [hs, hm]; exact ⟨rfl, id, id, Nat.le_refl _, id, Bool.noConfusion⟩) with
    live := by rw [hm]; exact Bool.noConfusion }

/-- A thread is created where there was none. -/
theorem Inv.createsCapture (h : Inv s) (hs : s.main.pc = .createCapture) (hm : m.pc = .createControl) :
    Inv { s with capture := .streamOn, main := m } := by
  have hbuf := h.buf_none (h.not_alive (by rw [hs]; rfl))
  exact { h.goto (m := m) (by rw [hs, hm]; exact ⟨rfl, Bool.noConfusion, id, Nat.le_refl _, id, fun _ => .inl rfl⟩) with
    capture := fun _ => by rw [hm]; rfl
    streaming := Bool.noConfusion
    buf := by rw [hbuf]; rfl }

theorem Inv.createsControl (h : Inv s) (hs : s.main.pc = .createControl) (hm : m.pc = .sleeping) :
    Inv { s with control := .loading, main := m } :=
  { h.goto (m := m) (by rw [hs, hm]; exact ⟨rfl, fun _ => rfl, Bool.noConfusion, Nat.le_refl _, id, fun _ => .inl rfl⟩) with
    control := fun _ => by rw [hm]; rfl }

/-- A thread that is joined has ended. -/
theorem Inv.joinsCapture (h : Inv s) (hs : s.main.pc = .joinCapture) (he : s.capture = .ended)
    (hm : m.pc = .joinControl) : Inv { s with main := m } :=
  { h with
    isOpen := by rw [h.isOpen, hs, hm]; rfl
    capture := by rw [he]; exact Bool.noConfusion
    control := fun _ => by rw [hm]; rfl
    below := fun i _ => by rw [hm]; exact i.isLt
    first := fun _ => h.first (by rw [hs]; rfl)
    live := fun _ => h.live (by rw [hs]; rfl) }

theorem Inv.joinsControl (h : Inv s) (hs : s.main.pc = .joinControl) (he : s.control = .ended)
    (hm : m.pc = .unmapping) : Inv { s with main := m } :=
  { h with
    isOpen := by rw [h.isOpen, hs, hm]; rfl
    capture := fun ha => absurd ha (by rw [h.not_alive (by rw [hs]; rfl)]; exact Bool.noConfusion)
    control := by rw [he]; exact Bool.noConfusion
    below := fun i _ => by rw [hm]; exact i.isLt
    first := fun _ => h.first (by rw [hs]; rfl)
    live := fun _ => h.live (by rw [hs]; rfl) }

theorem Inv.mainStep (h : Inv s) (hs : mainStep o s = some s') : Inv s' := by
  simp only [VideoDevice.mainStep, Option.ite_none_right_eq_some, Option.map_eq_some_iff] at hs
  obtain ⟨hj, m, hm, rfl⟩ := hs
  by_cases hst : steady o s.main.pc = true
  · rw [mainEffect_steady h hst]
    exact h.goto (mainStep_moves hm hst)
  have hopen := h.isOpen
  unfold mainEffect
  cases hpc : s.main.pc with
  | opening =>
    have ho : o = .ok := by simpa [hpc, steady] using hst
    simp only [Main.mainStep, hpc, ho, if_true, Option.some.injEq] at hm
    subst hm
    rw [ho]
    exact h.opens hpc rfl
  | enumerating =>
    have ho : o = .fail := by simpa [hpc, steady] using hst
    rw [ho] at hm ⊢
    simp only [Main.mainStep, hpc, Option.some.injEq] at hm
    subst hm
    rw [hpc] at hopen
    simp only [uses_of hopen, if_true]
    exact h.closes (by rw [hpc]; rfl) rfl (by rw [hpc]; rfl) (by rw [hpc]; rfl)
  | getting | requesting =>
    have ho : ¬ o = .ok := by simpa [hpc, steady] using hst
    simp only [Main.mainStep, hpc, ho, if_false, Option.some.injEq] at hm
    subst hm
    rw [hpc] at hopen
    simp only [uses_of hopen, ho, if_false]
    exact h.closes (by rw [hpc]; rfl) rfl (by rw [hpc]; rfl) (by rw [hpc]; rfl)
  | querying => simp [joins, hpc] at hj
  | createCapture =>
    simp only [Main.mainStep, hpc, Option.some.injEq] at hm
    exact h.createsCapture hpc (by rw [← hm])
  | createControl =>
    simp only [Main.mainStep, hpc, Option.some.injEq] at hm
    exact h.createsControl hpc (by rw [← hm]; rfl)
  | joinCapture =>
    simp only [joins, hpc, Bool.and_eq_true, beq_iff_eq] at hj
    simp only [Main.mainStep, hpc, hj.1, if_true, Option.some.injEq] at hm
    exact h.joinsCapture hpc hj.2 (by rw [← hm]; rfl)
  | joinControl =>
    simp only [joins, hpc, Bool.and_eq_true, beq_iff_eq] at hj
    simp only [Main.mainStep, hpc, hj.1, if_true, Option.some.injEq] at hm
    exact h.joinsControl hpc hj.2 (by rw [← hm]; rfl)
  | unmapping =>
    simp only [Main.mainStep, hpc, Option.some.injEq] at hm
    exact h.unmaps hpc (by rw [← hm]; rfl) _
  | closing =>
    simp only [Main.mainStep, hpc, Option.some.injEq] at hm
    subst hm
    exact h.closes (by rw [hpc]; rfl) rfl (by rw [hpc]; rfl) (by rw [hpc]; rfl)
  | _ => exact absurd (by rw [hpc]; rfl) hst

/-! ## The calls for a buffer -/

theorem asks_of (h : s.device.isOpen = true) (a : Answers) (i : Fin 3) : s.asks a i = { s with
    mem := mapBuffer a i s.mem
    device := { s.device with
      length := Function.update s.device.length i (a.querybuf.getD (s.device.length i)) } } := by
  unfold State.asks
  rw [uses_of h]

/-- A buffer is given to the driver, or the set-up ends, without a session if it is the
first one. -/
theorem queries_of (h : s.device.isOpen = true) (a : Answers) {i : Fin 3} (hi : i ∉ s.device.queued) (mapped : Bool) :
    s.queries a i mapped =
      if a.queued then
        { s.asks a i with
          device := { (s.asks a i).device with queued := s.device.queued ++ [i] }
          given := s.given ++ [i] }
      else if mapped then s.asks a i else (s.asks a i).closes := by
  have hopen : (s.asks a i).device.isOpen = true := h
  have hqueued : i ∉ (s.asks a i).device.queued := hi
  have hgiven : (s.asks a i).given = s.given := by rw [asks_of h]
  unfold State.queries Answers.queued
  simp only [queues_of hopen hqueued, hgiven, reduceCtorEq, if_true, if_false]
  cases a.area with
  | none => simp
  | some area => cases a.qbuf <;> simp [asks_of h]

theorem Inv.asks {i : Fin 3} {hm : Bool} (h : Inv s) (hpc : s.main.pc = .querying i hm) (a : Answers) :
    Inv (s.asks a i) := by
  have hopen : s.device.isOpen = true := by rw [h.isOpen, hpc]; rfl
  have hne : ∀ j ∈ s.given, j ≠ i := by
    intro j hj e
    have hlt := h.below j hj
    rw [hpc, e] at hlt
    exact absurd hlt (Nat.lt_irrefl _)
  have hbuf := h.buf_none (h.not_alive (by rw [hpc]; rfl))
  rw [asks_of hopen]
  exact { h with
    fits := by simp [hbuf]
    live := by
      intro _ j hj
      have hold := h.live (by rw [hpc]; rfl) j hj
      dsimp only
      rw [Capture.memoryMap_mapBuffer a (hne j hj), Function.update_of_ne (hne j hj)]
      exact Multiset.mem_of_le (Multiset.le_add_right ..) hold }

/-- A buffer that is queued is mapped with the length the driver said. -/
theorem live_asks {i : Fin 3} {a : Answers} (h : a.queued = true) :
    ⟨(s.asks a i).mem.memoryMap i, (s.asks a i).device.length i⟩ ∈ (s.asks a i).mem.ledger.held := by
  obtain ⟨querybuf, mmap, qbuf⟩ := a
  cases querybuf with
  | none => simp [Answers.queued, Answers.area] at h
  | some length =>
    have hmmap : mmap ≠ Capture.mapFailed := by
      intro e
      simp [Answers.queued, Answers.area, e] at h
    simp [State.asks, mapBuffer, Answers.area, hmmap]

/-- The buffer is given to the driver. -/
theorem Inv.gives {i : Fin 3} {mapped : Bool} {a : Answers} (h : Inv (s.asks a i)) (ha : a.queued = true)
    (hpc : (s.asks a i).main.pc = .querying i mapped)
    (hm : m.pc = if i.val + 1 < Main.captureBufferCount then .querying (i.val + 1) true else .initCec) :
    Inv { s.asks a i with
      main := m
      device := { (s.asks a i).device with queued := (s.asks a i).device.queued ++ [i] }
      given := (s.asks a i).given ++ [i] } := by
  have hbelow : ∀ j ∈ (s.asks a i).given, j.val < i.val := by
    intro j hj
    have hlt := h.below j hj
    rwa [hpc] at hlt
  have hgoes : opened m.pc = true ∧ i.val < limit m.pc := by
    rw [hm]
    split
    · exact ⟨rfl, Nat.lt_succ_self _⟩
    · exact ⟨rfl, i.isLt⟩
  exact { h with
    isOpen := h.isOpen.trans (by rw [hpc, hgoes.1]; rfl)
    capture := by simp [h.not_alive (by rw [hpc]; rfl)]
    control := by simp [h.not_controlAlive (by rw [hpc]; rfl)]
    cycle := by
      have hswap : ([i] ++ ((s.asks a i).inHand ++ (s.asks a i).out)).Perm
          (((s.asks a i).inHand ++ (s.asks a i).out) ++ [i]) := List.perm_append_comm
      refine List.Perm.trans ?_ (h.cycle.append_right [i])
      simp only [List.append_assoc] at hswap ⊢
      exact hswap.append_left _
    nodup := by
      refine List.nodup_append.2 ⟨h.nodup, List.nodup_singleton i, ?_⟩
      intro j hj k hk e
      rw [List.mem_singleton.1 hk] at e
      exact absurd (e ▸ hbelow j hj) (Nat.lt_irrefl _)
    below := by
      intro j hj
      rcases List.mem_append.1 hj with hj | hj
      · exact Nat.lt_trans (hbelow j hj) hgoes.2
      · rw [List.mem_singleton.1 hj]
        exact hgoes.2
    first := by
      intro _
      by_cases hi : i = 0
      · exact List.mem_append_right _ (by simp [hi])
      · exact List.mem_append_left _ (h.first (by simp [hpc, session, hi]))
    live := by
      intro _ j hj
      rcases List.mem_append.1 hj with hj | hj
      · exact h.live (by rw [hpc]; rfl) j hj
      · rw [List.mem_singleton.1 hj]
        exact live_asks ha }

theorem Inv.queryStep {a : Answers} (h : Inv s) (hs : queryStep a s = some s') : Inv s' := by
  unfold VideoDevice.queryStep at hs
  split at hs
  · next i mapped hpc =>
    simp only [Option.dite_none_right_eq_some, Option.map_eq_some_iff] at hs
    obtain ⟨hi, m, hm, rfl⟩ := hs
    have hopen : s.device.isOpen = true := by rw [h.isOpen, hpc]; rfl
    have hbelow : ∀ j ∈ s.given, j.val < i := by
      intro j hj
      have hlt := h.below j hj
      rwa [hpc] at hlt
    have hqueued : (⟨i, hi⟩ : Fin 3) ∉ s.device.queued := by
      intro hq
      have hgiven := h.cycle.subset (List.mem_append_left _ (List.mem_append_left _ hq))
      exact absurd (hbelow _ hgiven) (Nat.lt_irrefl _)
    have hasks : Inv (s.asks a ⟨i, hi⟩) := Inv.asks (i := ⟨i, hi⟩) h hpc a
    have hmain : (s.asks a ⟨i, hi⟩).main = s.main := by rw [asks_of hopen]
    have hgiven : (s.asks a ⟨i, hi⟩).given = s.given := by rw [asks_of hopen]
    rw [queries_of hopen a hqueued]
    simp only [Main.mainStep, hpc] at hm
    by_cases ha : a.queued = true
    · simp only [ha, if_true, Option.some.injEq] at hm ⊢
      have hg := hasks.gives (m := m) ha (by rw [hmain]; exact hpc) (by rw [← hm]; rfl)
      rw [hgiven] at hg
      exact hg
    · simp only [ha, Bool.false_eq_true, reduceCtorEq, if_false, Option.some.injEq] at hm ⊢
      subst hm
      cases mapped with
      | true =>
        refine hasks.goto (m := s.main.goto .initCec) ?_
        rw [hmain, hpc]
        exact ⟨rfl, Bool.noConfusion, Bool.noConfusion, Nat.le_of_lt hi, fun _ => by simp [session], fun _ => .inl rfl⟩
      | false =>
        exact hasks.closes (m := s.main.goto .top) (by rw [hmain, hpc]; rfl) rfl (by rw [hmain, hpc]; rfl)
          (by rw [hmain, hpc]; rfl)
  · cases hs

/-! ## Steps of the threads -/

/-- The capture thread goes on without a call. -/
theorem Inv.turns (h : Inv s) {pc : CapturePc} (ha : alive s.capture = true)
    (hst : streams pc = true → streams s.capture = true) (hh : holds pc = holds s.capture) :
    Inv { s with capture := pc } :=
  { h with
    capture := fun _ => h.capture ha
    streaming := fun hs => h.streaming (hst hs)
    buf := h.buf.trans hh.symm }

/-- A buffer at hand is not with the driver, and was given to it. -/
theorem Inv.inHand (h : Inv s) (hb : s.buf = some b) :
    b.index ∉ s.device.queued ∧ b.index ∉ s.out ∧ b.index ∈ s.given := by
  have hcycle := h.cycle
  have hnodup := hcycle.nodup_iff.2 h.nodup
  simp only [State.inHand, hb, Option.map_some, Option.toList_some, List.append_assoc, List.singleton_append] at hcycle hnodup
  obtain ⟨-, hrest, hdisj⟩ := List.nodup_append.1 hnodup
  refine ⟨?_, ?_, ?_⟩
  · intro hq
    exact hdisj b.index hq b.index (List.mem_cons_self ..) rfl
  · exact (List.nodup_cons.1 hrest).1
  · exact hcycle.subset (List.mem_append_right _ (List.mem_cons_self ..))

/-- What the decoder reads is in a mapping that is live, and its own. -/
theorem Inv.reads (h : Inv s) (ha : alive s.capture = true) (hb : s.buf = some b) : s.reads b = s := by
  obtain ⟨hq, -, hg⟩ := h.inHand hb
  have hlive := h.live (opened_of_captures (h.capture ha)).2 b.index hg
  have hcovers : s.covers b := ⟨_, hlive, rfl, h.fits b hb⟩
  unfold State.reads
  rw [require_of hq, require_of hcovers]

theorem Inv.streamsOn (h : Inv s) (hc : s.capture = .streamOn) :
    Inv { s with device := { s.device with streaming := true }, capture := .top } :=
  { h with
    capture := fun _ => h.capture (by rw [hc]; rfl)
    streaming := fun _ => rfl
    buf := h.buf.trans (by rw [hc]; rfl) }

/-- The driver hands out one of its buffers. -/
theorem Inv.dequeues (h : Inv s) (hc : s.capture = .dequeuing) (hq : b.index ∈ s.device.queued)
    (hfits : b.bytesused ≤ s.device.length b.index) :
    Inv { s with
      buf := some b
      device := { s.device with queued := s.device.queued.erase b.index }
      capture := .copying } := by
  have hbuf : s.buf = none := by simpa [hc, holds] using h.buf
  exact { h with
    capture := fun _ => h.capture (by rw [hc]; rfl)
    streaming := fun _ => h.streaming (by rw [hc]; rfl)
    buf := rfl
    fits := by
      intro b' hb'
      cases hb'
      exact hfits
    cycle := by
      have hcycle := h.cycle
      simp only [State.inHand, hbuf, Option.map_none, Option.toList_none, List.append_nil] at hcycle
      refine List.Perm.trans ?_ hcycle
      refine List.Perm.append_right _ ?_
      exact List.perm_append_comm.trans (List.perm_cons_erase hq).symm }

/-- The buffer goes back to the driver, or out of the cycle. -/
theorem Inv.requeues (h : Inv s) (hc : s.capture = .queuing) (hb : s.buf = some b) :
    Inv { s with
      device := { s.device with queued := if o = .ok then s.device.queued ++ [b.index] else s.device.queued }
      buf := none
      out := if o = .ok then s.out else s.out ++ [b.index]
      capture := .top } := by
  exact { h with
    capture := fun _ => h.capture (by rw [hc]; rfl)
    streaming := fun _ => h.streaming (by rw [hc]; rfl)
    buf := rfl
    fits := by simp
    cycle := by
      have hcycle := h.cycle
      simp only [State.inHand, hb, Option.map_some, Option.toList_some, List.append_assoc] at hcycle
      refine List.Perm.trans ?_ hcycle
      by_cases ho : o = .ok
      · simp [State.inHand, ho]
      · simp only [State.inHand, ho, if_false, Option.map_none, Option.toList_none, List.append_nil]
        exact List.perm_append_comm.append_left _ }

/-- `VIDIOC_STREAMOFF` takes all buffers back. -/
theorem Inv.streamsOff (h : Inv s) (hc : s.capture = .streamOff) :
    Inv { s with
      device := { s.device with streaming := false, queued := [] }
      out := s.out ++ s.device.queued
      capture := .returning } := by
  have hbuf : s.buf = none := by simpa [hc, holds] using h.buf
  exact { h with
    capture := fun _ => h.capture (by rw [hc]; rfl)
    streaming := Bool.noConfusion
    buf := by rw [hbuf]; rfl
    cycle := by
      have hcycle := h.cycle
      simp only [State.inHand, hbuf, Option.map_none, Option.toList_none, List.append_nil] at hcycle
      simp only [State.inHand, hbuf, Option.map_none, Option.toList_none, List.nil_append]
      exact List.perm_append_comm.trans hcycle }

/-- What the capture thread does, and where it goes. -/
theorem Inv.captureEffect (h : Inv s) {pc : CapturePc} (hd : delivers o b s)
    (hs : captureNext s.main.captureLoopRun o s.capture = some pc) :
    Inv { captureEffect o b s with capture := pc } := by
  have hopen : alive s.capture = true → s.uses = s := fun ha =>
    uses_of (h.isOpen.trans (opened_of_captures (h.capture ha)).1)
  have hbuf : holds s.capture = true → ∃ b', s.buf = some b' := fun hh =>
    Option.isSome_iff_exists.1 (h.buf.trans hh)
  cases hc : s.capture with
  | unborn | ended =>
    rw [hc] at hs
    cases hs
  | streamOn =>
    rw [hc] at hs
    obtain rfl := Option.some.inj hs
    have hu := hopen (by rw [hc]; rfl)
    by_cases ho : o = .ok
    · simp only [VideoDevice.captureEffect, hc, hu, ho, if_true]
      exact h.streamsOn hc
    · simp only [VideoDevice.captureEffect, hc, hu, ho, if_false]
      exact h.turns (by rw [hc]; rfl) Bool.noConfusion (by rw [hc]; rfl)
  | dequeuing =>
    rw [hc] at hs
    obtain rfl := Option.some.inj hs
    have hu := hopen (by rw [hc]; rfl)
    have hon := h.streaming (by rw [hc]; rfl)
    by_cases ho : o = .ok
    · obtain ⟨-, hq, hfits⟩ := hd hc ho
      simp only [VideoDevice.captureEffect, hc, hu, require_of hon, ho, if_true]
      exact h.dequeues hc hq hfits
    · simp only [VideoDevice.captureEffect, hc, hu, require_of hon, ho, if_false]
      exact h.turns (by rw [hc]; rfl) (fun _ => by rw [hc]; rfl) (by rw [hc]; rfl)
  | copying | decoding =>
    rw [hc] at hs
    obtain rfl := Option.some.inj hs
    have ha : alive s.capture = true := by rw [hc]; rfl
    obtain ⟨b', hb⟩ := hbuf (by rw [hc]; rfl)
    have he : VideoDevice.captureEffect o b s = s := by simp only [VideoDevice.captureEffect, hc, hb, h.reads ha hb]
    rw [he]
    refine h.turns ha (fun _ => by rw [hc]; rfl) ?_
    rw [hc]
    first | rfl | (split <;> rfl)
  | queuing =>
    rw [hc] at hs
    obtain rfl := Option.some.inj hs
    obtain ⟨b', hb⟩ := hbuf (by rw [hc]; rfl)
    have hisOpen : s.device.isOpen = true := h.isOpen.trans (opened_of_captures (h.capture (by rw [hc]; rfl))).1
    have hr := h.requeues (o := o) hc hb
    simp only [VideoDevice.captureEffect, hc, hb, queues_of hisOpen (h.inHand hb).1]
    by_cases ho : o = .ok
    · simp only [ho, if_true] at hr ⊢
      exact hr
    · simp only [ho, if_false] at hr ⊢
      exact hr
  | streamOff =>
    rw [hc] at hs
    obtain rfl := Option.some.inj hs
    have hu := hopen (by rw [hc]; rfl)
    have hon := h.streaming (by rw [hc]; rfl)
    by_cases ho : o = .ok
    · simp only [VideoDevice.captureEffect, hc, hu, require_of hon, ho, if_true]
      exact h.streamsOff hc
    · simp only [VideoDevice.captureEffect, hc, hu, require_of hon, ho, if_false]
      exact h.turns (by rw [hc]; rfl) Bool.noConfusion (by rw [hc]; rfl)
  | top | taking =>
    rw [hc] at hs
    obtain rfl := Option.some.inj hs
    simp only [VideoDevice.captureEffect, hc]
    refine h.turns (by rw [hc]; rfl) (fun _ => by rw [hc]; rfl) ?_
    rw [hc]
    split <;> rfl
  | clearingCapture next | clearingControl next | locking | waiting | woken | putting | returning =>
    rw [hc] at hs
    obtain rfl := Option.some.inj hs
    simp only [VideoDevice.captureEffect, hc]
    exact h.turns (by rw [hc]; rfl) (by rw [hc]; exact id) (by rw [hc]; rfl)

@[simp] theorem require_main (p : Prop) [Decidable p] (f : Fault) : (s.require p f).main = s.main := by
  unfold State.require
  split <;> rfl

@[simp] theorem uses_main (s : State) : s.uses.main = s.main := require_main ..

@[simp] theorem queues_main (o : Outcome) (i : Fin 3) : (s.queues o i).main = s.main := by
  unfold State.queues
  by_cases ho : o = .ok <;> simp [ho]

theorem captureEffect_main (o : Outcome) (b : Buffer) (s : State) : (captureEffect o b s).main = s.main := by
  unfold captureEffect State.reads
  dsimp only
  split
  · split <;> simp
  · split <;> simp
  · split <;> simp
  · split <;> simp
  · split <;> simp
  · split <;> simp
  · rfl

theorem Inv.captureStep (h : Inv s) (hs : captureStep o b s = some s') : Inv s' := by
  simp only [VideoDevice.captureStep, Option.ite_none_right_eq_some, Option.map_eq_some_iff] at hs
  obtain ⟨hd, pc, hpc, rfl⟩ := hs
  refine (h.captureEffect hd hpc).congr (m := captureClears s.capture s.main) ?_
  rw [Teardown.captureClears_pc, captureEffect_main]

theorem controlAlive_of_next {run : Bool} {pc pc' : ControlPc} (hs : controlNext run false o pc = some pc') :
    controlAlive pc = true := by
  cases pc <;> first | rfl | cases hs

theorem Inv.controlStep (h : Inv s) (hs : controlStep o s = some s') : Inv s' := by
  simp only [VideoDevice.controlStep, Option.map_eq_some_iff] at hs
  obtain ⟨pc, hpc, rfl⟩ := hs
  have hctl := h.control (controlAlive_of_next hpc)
  rw [uses_of (h.isOpen.trans (opened_of_controls hctl)), ite_self]
  exact { h with control := fun _ => hctl }

/-! ## Runs -/

theorem inv_init (hi : machine.init s) : Inv s := by
  obtain ⟨⟨-, -, -, hpc, -⟩, hcap, hctl, -, hdev, hbuf, hgiven, hout, hf⟩ := hi
  exact {
    faults := hf
    isOpen := by rw [hdev, hpc]; rfl
    capture := by rw [hcap]; exact Bool.noConfusion
    control := by rw [hctl]; exact Bool.noConfusion
    streaming := by rw [hcap]; exact Bool.noConfusion
    buf := by rw [hbuf, hcap]; rfl
    fits := by simp [hbuf]
    cycle := by simp [hdev, State.inHand, hbuf, hout, hgiven, Device.closed]
    nodup := by simp [hgiven]
    below := by simp [hgiven]
    first := by rw [hpc]; exact Bool.noConfusion
    live := by simp [hgiven] }

theorem Inv.step (h : Inv s) {a : Act} (hs : machine.step s a = some s') : Inv s' := by
  cases a with
  | main o => exact h.mainStep hs
  | query a => exact h.queryStep hs
  | signal =>
    simp only [machine, VideoDevice.step, Main.step, Option.map_eq_some_iff, Option.ite_none_right_eq_some,
      Option.some.injEq] at hs
    obtain ⟨m, ⟨-, rfl⟩, rfl⟩ := hs
    exact h.congr rfl
  | handle =>
    simp only [machine, VideoDevice.step, Main.step, Option.map_eq_some_iff] at hs
    obtain ⟨m, hm, rfl⟩ := hs
    split at hm
    · cases hm
      exact h.congr rfl
    · cases hm
      exact h.congr rfl
    · cases hm
  | capture o b => exact h.captureStep hs
  | control o => exact h.controlStep hs

theorem inv_reach (h : machine.Reach s) : Inv s :=
  h.invariant (fun _ hi => inv_init hi) fun _ _ _ _ hi hs => hi.step hs

/-- **The device is used as it asks.** Whatever its calls answer, so long as
`VIDIOC_DQBUF` gives out what was queued (`delivers`), and wherever SIGINT comes, the
program opens the device only when it has closed it, uses and closes it only while it is
open, dequeues only while it streams and queues only what the driver has not; the decoder
reads a buffer only while it is mapped and not the driver's. Outside of a session the
device is closed. -/
theorem device_protocol (h : machine.Reach s) :
    s.faults = [] ∧ s.device.isOpen = opened s.main.pc :=
  ⟨(inv_reach h).faults, (inv_reach h).isOpen⟩

/-- At the start of the program. -/
def initState : State :=
  ⟨Main.initState, .unborn, .unborn, Capture.initState, .closed, none, [], [], []⟩

theorem init_initState : machine.init initState :=
  ⟨⟨rfl, rfl, rfl, rfl, rfl, rfl, rfl, rfl⟩, rfl, rfl, rfl, rfl, rfl, rfl, rfl, rfl⟩

/-- Into the first session, with two of the buffers. -/
def toSession : List Act :=
  List.flatten [List.replicate 7 (.main .ok),
    [.query ⟨some 4096, 0x1000, true⟩, .query ⟨some 4096, 0x2000, true⟩, .query ⟨some 4096, 0x3000, false⟩],
    List.replicate 6 (.main .ok)]

/-- A frame is decoded, one of its buffers cannot be queued again. -/
def frames : List Act :=
  List.flatten [[.capture .ok ⟨0, 0⟩, .capture .ok ⟨0, 0⟩, .capture .ok ⟨1, 4000⟩],
    List.replicate 5 (.capture .ok ⟨0, 0⟩), [.capture .fail ⟨0, 0⟩], [.capture .ok ⟨0, 0⟩]]

/-- SIGINT ends the session. -/
def sessionEnd : List Act :=
  List.flatten [[.signal, .handle, .handle, .capture .fail ⟨0, 0⟩], List.replicate 5 (.capture .ok ⟨0, 0⟩),
    List.replicate 8 (.control .ok), List.replicate 9 (.main .ok)]

theorem device_protocol_session : ∃ s, machine.exec initState (toSession ++ frames ++ sessionEnd) = some s ∧
    s.main.pc = .top ∧ s.main.sessions = 1 ∧ s.faults = [] ∧ s.device.isOpen = false := by
  obtain ⟨s, hs, hp⟩ := Option.map_eq_some_iff.1
    (by decide +kernel : (machine.exec initState (toSession ++ frames ++ sessionEnd)).map
      (fun s => s.main.pc == .top && s.main.sessions == 1) = some true)
  simp only [Bool.and_eq_true, beq_iff_eq] at hp
  obtain ⟨hf, ho⟩ := device_protocol (Machine.Reach.exec (.start init_initState) hs)
  exact ⟨s, hs, hp.1, hp.2, hf, ho.trans (by rw [hp.1]; rfl)⟩

/-- The buffers of a session: those with the driver, the one at hand, and those out of
the cycle. -/
structure Kept (s : State) : Prop where
  cycle : (s.device.queued ++ s.inHand ++ s.out).Perm s.given
  nodup : s.given.Nodup
  session : session s.main.pc = true → 0 ∈ s.given
  /-- `VIDIOC_DQBUF` waits for a buffer that never comes -/
  starved : s.capture = .dequeuing → (s.device.queued = [] ↔ s.given ⊆ s.out)

end Camview.VideoDevice
