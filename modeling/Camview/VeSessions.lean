/-
The video engine over the whole program: `main` opens it at the start, `hw_init` takes
it and allocates the input buffer at the start of each session, `hw_close` gives both
back at its end, and `ve_close` comes last.

Every session finds the engine free and the reserved memory whole, if `ve_open`
succeeded. It does not look at that: `ve_get` writes through `ve.regs` either way, so
the first session of a program that could not open the engine ends it.
-/
import Camview.InputBuffer
import Camview.MainLoop
import Camview.VeCanonical

namespace Camview.VeSessions

open Main (Outcome)
open Ve (Clients Mmap VeInfo Mapped)

/-! ## State -/

/-- The lock is not recursive, and is given back by who has it. -/
inductive Fault
  /-- `ve_get` by the thread that has `device_lock` -/
  | deadlock
  /-- `ve_put` without it -/
  | notHeld
deriving DecidableEq, Repr

/-- `regs` is `none` when `ve.regs` is `NULL` or `MAP_FAILED`; `ctrl` is what was last
written to `VE_CTRL`; `crashed` is that something was written through no `regs`. -/
structure State where
  main : Main.State
  clients : Clients
  regs : Option Nat
  locked : Bool
  ctrl : Option UInt32
  inputBuffer : Nat
  crashed : Bool
  faults : List Fault
deriving DecidableEq, Repr

/-! ## Calls -/

/-- `writel(value, ve.regs + VE_CTRL)`. -/
def State.writeCtrl (s : State) (value : UInt32) : State :=
  match s.regs with
  | some _ => { s with ctrl := some value }
  | none => { s with crashed := true }

/-- `ve_open`; `regs` is what `mmap` answers. -/
def State.veOpen (fd : Int32) (info : Option VeInfo) (regs : Option Nat) (s : State) : State :=
  let r := Ve.veOpen fd info regs s.clients.ve
  let s := { s with clients := { s.clients with ve := r.2 } }
  if r.1 then { s with regs := regs }.writeCtrl 0x00130007 else s

/-- `ve_close`. -/
def State.veClose (s : State) : State :=
  if s.clients.ve.fd = -1 then s
  else { s with clients := { s.clients with ve := Ve.veClose s.clients.ve }, regs := none }

/-- `ve_get(VE_ENGINE_MPEG, 0)`. -/
def State.veGet (s : State) : State :=
  if s.locked then { s with faults := s.faults ++ [.deadlock] }
  else { s with locked := true }.writeCtrl 0x00130000

/-- `ve_put`. -/
def State.vePut (s : State) : State :=
  let s := s.writeCtrl 0x00130007
  if s.crashed then s
  else if s.locked then { s with locked := false }
  else { s with faults := s.faults ++ [.notHeld] }

/-- `hw_init`. -/
def State.hwInit (mmap : Mmap) (width height : Int32) (s : State) : State :=
  let s := s.veGet
  if s.crashed then s
  else
    { s with
      inputBuffer := (Hw.hwInit mmap width height s.clients.ve).1
      clients := s.clients.malloc mmap (Hw.inputSize width height) true }

/-- `hw_close`, as far as it is about the engine. -/
def State.hwClose (s : State) : State :=
  let s := s.vePut
  if s.crashed then s else { s with clients := s.clients.free s.inputBuffer }

/-! ## Steps -/

inductive Act
  /-- a step that is not about the engine -/
  | main (a : Main.Act)
  | start (fd : Int32) (env : Bool) (regs : Option Nat)
  | hwInit (mmap : Mmap) (width height : Int32)
  | hwClose
  | exit

/-- `main` calls a function of the engine. -/
def calls : Main.Pc → Bool
  | .starting | .initHw | .closingHw | .stopping => true
  | _ => false

/-- A step that is not about the engine. -/
def otherStep (a : Main.Act) (s : State) : Option State :=
  match a with
  | .main o => if calls s.main.pc then none else (Main.mainStep o s.main).map fun m => { s with main := m }
  | a => (Main.step s.main a).map fun m => { s with main := m }

/-- A call at `pc`, after which `main` goes on if the process has not ended. -/
def callStep (pc : Main.Pc) (call : State → State) (s : State) : Option State :=
  if s.main.pc = pc then
    if (call s).crashed then some (call s)
    else (Main.mainStep .ok s.main).map fun m => { call s with main := m }
  else none

/-- `info` is what the driver tells of the reserved memory, when it does. -/
def step (info : VeInfo) (s : State) (a : Act) : Option State :=
  if s.crashed then none
  else
    match a with
    | .main a => otherStep a s
    | .start fd env regs => callStep .starting (·.veOpen fd (if env then some info else none) regs) s
    | .hwInit mmap width height => callStep .initHw (·.hwInit mmap width height) s
    | .hwClose => callStep .closingHw State.hwClose s
    | .exit => callStep .stopping State.veClose s

/-- The program from the call of `signal` on. -/
def machine (info : VeInfo) : Machine State Act where
  init s := Main.machine.init s.main ∧ s.clients = ⟨Ve.static, []⟩ ∧ s.regs = none ∧ s.locked = false ∧
    s.ctrl = none ∧ s.inputBuffer = 0 ∧ s.crashed = false ∧ s.faults = []
  step := step info

/-- `mmap` maps nothing empty and nothing at `NULL`, and not over what is held. -/
def Answers (s : State) : Act → Prop
  | .hwInit mmap width height => Mapped s.clients (.malloc mmap (Hw.inputSize width height) true)
  | _ => True

/-- A session is begun only with the engine open. -/
def Opened (s : State) : Act → Prop
  | .hwInit .. => s.clients.ve.fd ≠ -1
  | _ => True

/-! ## Between the calls -/

/-- `main` has the engine. -/
def holds : Main.Pc → Bool
  | .runCapture | .runControl | .createCapture | .createControl | .sleeping | .testCapture | .testControl
  | .joinCapture | .cancelCapture | .joinControl | .cancelControl | .unmapping | .closing | .closingHw => true
  | _ => false

/-- What a session finds and leaves. With the engine open: the lock is held during a
session; between sessions the reserved memory is one free chunk, and in a session the
only allocation is the input buffer, if there is one, which is at its start. -/
structure Kept (info : VeInfo) (s : State) : Prop where
  faults : s.faults = []
  locked : s.locked = holds s.main.pc
  ctrl : s.clients.ve.fd ≠ -1 → s.ctrl = some (if holds s.main.pc then 0x00130000 else 0x00130007)
  whole : s.clients.ve.fd ≠ -1 → holds s.main.pc = false →
    s.clients = ⟨⟨s.clients.ve.fd, [⟨info.base, info.reservedMemSize, 0⟩]⟩, []⟩
  input : s.clients.ve.fd ≠ -1 → holds s.main.pc = true →
    s.inputBuffer = 0 ∧ s.clients.outstanding = [] ∨
      s.inputBuffer ≠ 0 ∧ s.clients.outstanding = [s.inputBuffer] ∧
        Ve.veVirt2phys s.inputBuffer s.clients.ve = info.base
  closed : s.main.pc = .ended → s.clients.ve.fd = -1

/-- With what the calls need. -/
structure Good (info : VeInfo) (s : State) : Prop extends Kept info s where
  regs : s.regs.isSome = true ↔ s.clients.ve.fd ≠ -1
  opened : holds s.main.pc = true → s.clients.ve.fd ≠ -1
  alloc : s.clients.ve.fd ≠ -1 → (Ve.machine info).Via Mapped s.clients
  starting : s.main.pc = .starting → s.clients = ⟨Ve.static, []⟩ ∧ s.regs = none

variable {info : VeInfo} {s s' : State} {m : Main.State} {o : Outcome}

/-- Away from the calls, `main` stays within a session or outside of one. -/
theorem mainStep_holds {n m : Main.State} (hs : Main.mainStep o n = some m) (hc : calls n.pc = false) :
    holds m.pc = holds n.pc ∧ m.pc ≠ .ended ∧ m.pc ≠ .starting := by
  obtain ⟨d, c, k, pc, hd, cr, sessions, g, f⟩ := n
  cases pc with
  | starting | initHw | closingHw | stopping => cases hc
  | ended => cases hs
  | opening | enumerating | getting | requesting | joinCapture | joinControl =>
    cases o <;> cases hs <;> exact ⟨rfl, Main.Pc.noConfusion, Main.Pc.noConfusion⟩
  | top => cases d <;> cases hs <;> exact ⟨rfl, Main.Pc.noConfusion, Main.Pc.noConfusion⟩
  | testCapture => cases c <;> cases hs <;> exact ⟨rfl, Main.Pc.noConfusion, Main.Pc.noConfusion⟩
  | testControl => cases k <;> cases hs <;> exact ⟨rfl, Main.Pc.noConfusion, Main.Pc.noConfusion⟩
  | querying i mapped =>
    simp only [Main.mainStep] at hs
    split at hs
    · cases hs
      dsimp only [Main.State.goto]
      split <;> exact ⟨rfl, Main.Pc.noConfusion, Main.Pc.noConfusion⟩
    · cases hs
      cases mapped <;> exact ⟨rfl, Main.Pc.noConfusion, Main.Pc.noConfusion⟩
  | _ =>
    cases hs
    exact ⟨rfl, Main.Pc.noConfusion, Main.Pc.noConfusion⟩

theorem Good.goto (h : Good info s) (hh : holds m.pc = holds s.main.pc)
    (he : m.pc = .ended → s.main.pc = .ended) (hst : m.pc = .starting → s.main.pc = .starting) :
    Good info { s with main := m } where
  faults := h.faults
  locked := h.locked.trans hh.symm
  ctrl ho := (h.ctrl ho).trans (by rw [hh])
  whole ho hp := h.whole ho (hh.symm.trans hp)
  input ho hp := h.input ho (hh.symm.trans hp)
  closed hp := h.closed (he hp)
  regs := h.regs
  opened hp := h.opened (hh.symm.trans hp)
  alloc := h.alloc
  starting hp := h.starting (hst hp)

theorem Good.other (h : Good info s) {a : Main.Act} (hs : otherStep a s = some s') : Good info s' := by
  unfold otherStep at hs
  split at hs
  · simp only [Option.ite_none_left_eq_some, Option.map_eq_some_iff, Bool.not_eq_true] at hs
    obtain ⟨hc, m, hm, rfl⟩ := hs
    obtain ⟨hh, he, hst⟩ := mainStep_holds hm hc
    exact h.goto hh (fun e => absurd e he) fun e => absurd e hst
  · next hne =>
    simp only [Option.map_eq_some_iff] at hs
    obtain ⟨m, hm, rfl⟩ := hs
    have hpc : m.pc = s.main.pc := by
      cases a with
      | main o => exact absurd rfl (hne o)
      | handle =>
        simp only [Main.step] at hm
        split at hm <;> cases hm <;> rfl
      | signal | clearCapture | clearControl =>
        simp only [Main.step, Option.ite_none_right_eq_some, Option.some.injEq] at hm
        obtain ⟨-, rfl⟩ := hm
        rfl
    exact h.goto (by rw [hpc]) (fun e => hpc ▸ e) fun e => hpc ▸ e

/-! ## The calls -/

/-- The allocator as a successful `ve_open` leaves it. -/
def fresh (info : VeInfo) (fd : Int32) : Clients := ⟨⟨fd, [⟨info.base, info.reservedMemSize, 0⟩]⟩, []⟩

theorem via_fresh {fd : Int32} (hfd : fd ≠ -1) : (Ve.machine info).Via Mapped (fresh info fd) := by
  refine .start ⟨fd, some 0, ?_, rfl⟩
  simp [Ve.veOpen, Ve.static, hfd, fresh, Ve.setFirstMemchunk, VeInfo.base]

theorem veOpen_static (fd : Int32) (env : Option VeInfo) (regs : Option Nat) :
    Ve.veOpen fd env regs Ve.static = (false, Ve.static) ∨
      fd ≠ -1 ∧ ∃ info, env = some info ∧ regs.isSome = true ∧
        Ve.veOpen fd env regs Ve.static = (true, (fresh info fd).ve) := by
  by_cases hfd : fd = -1
  · exact .inl (by simp [Ve.veOpen, Ve.static, hfd])
  · cases env with
    | none => exact .inl (by simp [Ve.veOpen, Ve.static, hfd])
    | some info =>
      cases regs with
      | none => exact .inl (by simp [Ve.veOpen, Ve.static, hfd])
      | some r =>
        exact .inr ⟨hfd, info, rfl, rfl, by
          simp [Ve.veOpen, Ve.static, hfd, fresh, Ve.setFirstMemchunk, VeInfo.base]⟩

/-- `ve_open` at the start leaves the engine closed, or the memory whole. -/
theorem Good.start (h : Good info s) (hpc : s.main.pc = .starting) (hm : m.pc = .top) (fd : Int32) (env : Bool)
    (regs : Option Nat) :
    Good info { s.veOpen fd (if env then some info else none) regs with main := m } := by
  obtain ⟨hclients, hregs⟩ := h.starting hpc
  have hlocked : s.locked = false := by rw [h.locked, hpc]; rfl
  have hve : s.clients.ve = Ve.static := by rw [hclients]
  have hout : s.clients.outstanding = [] := by rw [hclients]
  unfold State.veOpen
  dsimp only
  rw [hve]
  rcases veOpen_static fd (if env then some info else none) regs with e | ⟨hfd, info', hinfo, hr, e⟩
  · rw [e]
    have hno : ¬ (Ve.static.fd ≠ -1) := by decide
    exact {
      faults := h.faults
      locked := by rw [hm]; exact hlocked
      ctrl := fun ho => absurd ho hno
      whole := fun ho => absurd ho hno
      input := fun ho => absurd ho hno
      closed := fun _ => rfl
      regs := by
        rw [if_neg Bool.noConfusion]
        dsimp only
        rw [hregs]
        exact iff_of_false Bool.noConfusion hno
      opened := fun hp => by rw [hm] at hp; cases hp
      alloc := fun ho => absurd ho hno
      starting := fun hp => by rw [hm] at hp; cases hp }
  · obtain rfl : info' = info := by
      cases env with
      | true => exact (Option.some.inj hinfo).symm
      | false => cases hinfo
    obtain ⟨r, rfl⟩ := Option.isSome_iff_exists.1 hr
    rw [e]
    exact {
      faults := h.faults
      locked := by rw [hm]; exact hlocked
      ctrl := fun _ => by rw [hm]; rfl
      whole := fun _ _ => by
        dsimp only [State.writeCtrl, if_true]
        rw [hout]
        rfl
      input := fun _ hp => by rw [hm] at hp; cases hp
      closed := fun hp => by rw [hm] at hp; cases hp
      regs := iff_of_true rfl hfd
      opened := fun hp => by rw [hm] at hp; cases hp
      alloc := fun _ => by
        dsimp only [State.writeCtrl, if_true]
        rw [hout]
        exact via_fresh hfd
      starting := fun hp => by rw [hm] at hp; cases hp }

/-- `ve_malloc` on the whole memory fails, or takes its start. -/
theorem malloc_fresh {fd : Int32} (hfd : fd ≠ -1) (mmap : Mmap) (size : Int32) (write : Bool) :
    ((fresh info fd).malloc mmap size write).ve.fd = fd ∧
      ((Ve.veMalloc mmap size write (fresh info fd).ve).1 = 0 ∧
          ((fresh info fd).malloc mmap size write).outstanding = [] ∨
        (Ve.veMalloc mmap size write (fresh info fd).ve).1 ≠ 0 ∧
          ((fresh info fd).malloc mmap size write).outstanding =
            [(Ve.veMalloc mmap size write (fresh info fd).ve).1] ∧
          Ve.veVirt2phys (Ve.veMalloc mmap size write (fresh info fd).ve).1
            ((fresh info fd).malloc mmap size write).ve = info.base) := by
  unfold Clients.malloc
  rcases Ve.veMalloc_cases mmap size write (fresh info fd).ve with e | ⟨pre, b, post, addr, he, -, -, ha, -, e⟩
  · rw [e]
    exact ⟨rfl, .inl ⟨rfl, rfl⟩⟩
  · rw [e]
    dsimp only
    rw [if_neg ha]
    refine ⟨rfl, .inr ⟨ha, rfl, ?_⟩⟩
    have hcs : [(⟨info.base, info.reservedMemSize, 0⟩ : Ve.MemchunkT)] = pre ++ b :: post := he
    cases pre with
    | cons c pre => simp at hcs
    | nil =>
      obtain ⟨rfl, rfl⟩ : b = ⟨info.base, info.reservedMemSize, 0⟩ ∧ post = [] := by
        simpa [eq_comm] using hcs
      simp [Ve.veVirt2phys, fresh, hfd, Ve.split, Ve.findPhys, ha]

/-- `hw_init` with the engine open and free. -/
theorem hwInit_eq {r : Nat} (hr : s.regs = some r) (hl : s.locked = false) (hc : s.crashed = false) (mmap : Mmap)
    (width height : Int32) :
    s.hwInit mmap width height = { s with
      locked := true
      ctrl := some 0x00130000
      inputBuffer := (Hw.hwInit mmap width height s.clients.ve).1
      clients := s.clients.malloc mmap (Hw.inputSize width height) true } := by
  simp [State.hwInit, State.veGet, State.writeCtrl, hl, hr, hc]

/-- Without `regs` it is the end. -/
theorem hwInit_crashes (hr : s.regs = none) (hl : s.locked = false) (mmap : Mmap) (width height : Int32) :
    (s.hwInit mmap width height).crashed = true := by
  simp [State.hwInit, State.veGet, State.writeCtrl, hl, hr]

theorem Good.hwInit (h : Good info s) (hpc : s.main.pc = .initHw) (hm : m.pc = .runCapture)
    (ho : s.clients.ve.fd ≠ -1) (hc : s.crashed = false) {mmap : Mmap} {width height : Int32}
    (ha : Mapped s.clients (.malloc mmap (Hw.inputSize width height) true)) :
    Good info { s.hwInit mmap width height with main := m } := by
  obtain ⟨r, hr⟩ := Option.isSome_iff_exists.1 (h.regs.2 ho)
  have hlocked : s.locked = false := by rw [h.locked, hpc]; rfl
  have hwhole : s.clients = fresh info s.clients.ve.fd := h.whole ho (by rw [hpc]; rfl)
  have hmalloc := @malloc_fresh info _ ho mmap (Hw.inputSize width height) true
  rw [← hwhole] at hmalloc
  obtain ⟨hfd, hinput⟩ := hmalloc
  have ho' : (s.clients.malloc mmap (Hw.inputSize width height) true).ve.fd ≠ -1 := by rw [hfd]; exact ho
  rw [hwInit_eq hr hlocked hc]
  exact {
    faults := h.faults
    locked := by rw [hm]; rfl
    ctrl := fun _ => by rw [hm]; rfl
    whole := fun _ hp => by rw [hm] at hp; cases hp
    input := fun _ _ => hinput
    closed := fun hp => by rw [hm] at hp; cases hp
    regs := iff_of_true (by rw [hr]; rfl) ho'
    opened := fun _ => ho'
    alloc := fun _ => (h.alloc ho).next ha rfl
    starting := fun hp => by rw [hm] at hp; cases hp }

/-- `hw_close` with the engine open and held. -/
theorem hwClose_eq {r : Nat} (hr : s.regs = some r) (hl : s.locked = true) (hc : s.crashed = false) :
    s.hwClose = { s with
      locked := false
      ctrl := some 0x00130007
      clients := s.clients.free s.inputBuffer } := by
  simp [State.hwClose, State.vePut, State.writeCtrl, hl, hr, hc]

theorem Good.hwClose (hN : 0 < info.reservedMemSize) (h : Good info s) (hpc : s.main.pc = .closingHw)
    (hm : m.pc = .stoppingCec) (hc : s.crashed = false) :
    Good info { s.hwClose with main := m } ∧ s.hwClose.crashed = false := by
  have hhold : holds s.main.pc = true := by rw [hpc]; rfl
  have ho := h.opened hhold
  obtain ⟨r, hr⟩ := Option.isSome_iff_exists.1 (h.regs.2 ho)
  have hlocked : s.locked = true := h.locked.trans hhold
  have ho' : (s.clients.free s.inputBuffer).ve.fd ≠ -1 := by rw [Ve.free_fd]; exact ho
  have hvia := (h.alloc ho).next (show Mapped s.clients (.free s.inputBuffer) from trivial) rfl
  have hout : (s.clients.free s.inputBuffer).outstanding = [] := by
    show s.clients.outstanding.erase s.inputBuffer = []
    rcases h.input ho hhold with ⟨-, hout⟩ | ⟨-, hout, -⟩
    · rw [hout]
      rfl
    · rw [hout]
      exact List.erase_cons_head ..
  have hcs := (Ve.via_inv hN hvia).allFreed hN hout
  rw [hwClose_eq hr hlocked hc]
  refine ⟨?_, hc⟩
  exact {
    faults := h.faults
    locked := by rw [hm]; rfl
    ctrl := fun _ => by rw [hm]; rfl
    whole := fun _ _ => Ve.clients_ext rfl hcs hout
    input := fun _ hp => by rw [hm] at hp; cases hp
    closed := fun hp => by rw [hm] at hp; cases hp
    regs := iff_of_true (by rw [hr]; rfl) ho'
    opened := fun hp => by rw [hm] at hp; cases hp
    alloc := fun _ => hvia
    starting := fun hp => by rw [hm] at hp; cases hp }

theorem Good.exit (h : Good info s) (hpc : s.main.pc = .stopping) (hm : m.pc = .ended) :
    Good info { s.veClose with main := m } ∧ s.veClose.crashed = s.crashed := by
  have hlocked : s.locked = false := by rw [h.locked, hpc]; rfl
  unfold State.veClose
  by_cases hfd : s.clients.ve.fd = -1
  · rw [if_pos hfd]
    refine ⟨?_, rfl⟩
    exact {
      faults := h.faults
      locked := by rw [hm]; exact hlocked
      ctrl := fun ho => absurd hfd ho
      whole := fun ho => absurd hfd ho
      input := fun ho => absurd hfd ho
      closed := fun _ => hfd
      regs := h.regs
      opened := fun hp => by rw [hm] at hp; cases hp
      alloc := fun ho => absurd hfd ho
      starting := fun hp => by rw [hm] at hp; cases hp }
  · rw [if_neg hfd]
    refine ⟨?_, rfl⟩
    have hclosed : (Ve.veClose s.clients.ve).fd = -1 := by
      unfold Ve.veClose
      rw [if_neg hfd]
    exact {
      faults := h.faults
      locked := by rw [hm]; exact hlocked
      ctrl := fun ho => absurd hclosed ho
      whole := fun ho => absurd hclosed ho
      input := fun ho => absurd hclosed ho
      closed := fun _ => hclosed
      regs := iff_of_false Bool.noConfusion fun ho => ho hclosed
      opened := fun hp => by rw [hm] at hp; cases hp
      alloc := fun ho => absurd hclosed ho
      starting := fun hp => by rw [hm] at hp; cases hp }

/-! ## Runs -/

theorem callStep_eq {pc : Main.Pc} {call : State → State} (hs : callStep pc call s = some s') :
    s.main.pc = pc ∧ ((call s).crashed = true ∧ s' = call s ∨
      (call s).crashed = false ∧ ∃ m, Main.mainStep .ok s.main = some m ∧ s' = { call s with main := m }) := by
  unfold callStep at hs
  split at hs
  · next hpc =>
    refine ⟨hpc, ?_⟩
    split at hs
    · next hc => exact .inl ⟨hc, (Option.some.inj hs).symm⟩
    · next hc =>
      simp only [Option.map_eq_some_iff] at hs
      obtain ⟨m, hm, rfl⟩ := hs
      exact .inr ⟨Bool.eq_false_of_not_eq_true hc, m, hm, rfl⟩
  · cases hs

theorem otherStep_crashed {a : Main.Act} (hs : otherStep a s = some s') : s'.crashed = s.crashed := by
  unfold otherStep at hs
  split at hs
  · simp only [Option.ite_none_left_eq_some, Option.map_eq_some_iff] at hs
    obtain ⟨-, m, -, rfl⟩ := hs
    rfl
  · simp only [Option.map_eq_some_iff] at hs
    obtain ⟨m, -, rfl⟩ := hs
    rfl

/-- A step keeps all this, or begins a session without the engine and crashes. -/
theorem Good.step (hN : 0 < info.reservedMemSize) (h : Good info s) (hc : s.crashed = false) {a : Act}
    (ha : Answers s a) (hs : (machine info).step s a = some s') :
    s'.crashed = false ∧ Good info s' ∧ Opened s a ∨ s'.crashed = true ∧ ¬ Opened s a := by
  simp only [machine, VeSessions.step, hc, Bool.false_eq_true, if_false] at hs
  cases a with
  | main a => exact .inl ⟨(otherStep_crashed hs).trans hc, h.other hs, trivial⟩
  | start fd env regs =>
    obtain ⟨hpc, hs⟩ := callStep_eq hs
    have hno : (s.veOpen fd (if env then some info else none) regs).crashed = false := by
      unfold State.veOpen
      dsimp only
      rcases veOpen_static fd (if env then some info else none) regs with e | ⟨-, info', -, hr, e⟩
      · rw [(h.starting hpc).1, e]
        exact hc
      · obtain ⟨r, rfl⟩ := Option.isSome_iff_exists.1 hr
        rw [(h.starting hpc).1, e]
        exact hc
    rcases hs with ⟨hcr, -⟩ | ⟨-, m, hm, rfl⟩
    · rw [hno] at hcr
      cases hcr
    · simp only [Main.mainStep, hpc, Option.some.injEq] at hm
      exact .inl ⟨hno, h.start hpc (by rw [← hm]) fd env regs, trivial⟩
  | hwInit mmap width height =>
    obtain ⟨hpc, hs⟩ := callStep_eq hs
    have hlocked : s.locked = false := by rw [h.locked, hpc]; rfl
    by_cases ho : s.clients.ve.fd = -1
    · have hr : s.regs = none := by
        by_contra hne
        exact h.regs.1 (Option.isSome_iff_ne_none.2 hne) ho
      have hcr := hwInit_crashes (s := s) hr hlocked mmap width height
      rcases hs with ⟨-, rfl⟩ | ⟨hno, -⟩
      · exact .inr ⟨hcr, fun hopen => hopen ho⟩
      · rw [hcr] at hno
        cases hno
    · obtain ⟨r, hr⟩ := Option.isSome_iff_exists.1 (h.regs.2 ho)
      have hno : (s.hwInit mmap width height).crashed = false := by
        rw [hwInit_eq hr hlocked hc]
        exact hc
      rcases hs with ⟨hcr, -⟩ | ⟨-, m, hm, rfl⟩
      · rw [hno] at hcr
        cases hcr
      · simp only [Main.mainStep, hpc, Option.some.injEq] at hm
        exact .inl ⟨hno, h.hwInit hpc (by rw [← hm]; rfl) ho hc ha, ho⟩
  | hwClose =>
    obtain ⟨hpc, hs⟩ := callStep_eq hs
    rcases hs with ⟨hcr, -⟩ | ⟨-, m, hm, rfl⟩
    · rw [(h.hwClose hN (m := s.main.goto .stoppingCec) hpc rfl hc).2] at hcr
      cases hcr
    · simp only [Main.mainStep, hpc, Option.some.injEq] at hm
      obtain ⟨hg, hno⟩ := h.hwClose hN (m := m) hpc (by rw [← hm]; rfl) hc
      exact .inl ⟨hno, hg, trivial⟩
  | exit =>
    obtain ⟨hpc, hs⟩ := callStep_eq hs
    rcases hs with ⟨hcr, -⟩ | ⟨-, m, hm, rfl⟩
    · rw [(h.exit (m := s.main.goto .ended) hpc rfl).2, hc] at hcr
      cases hcr
    · simp only [Main.mainStep, hpc, Option.some.injEq] at hm
      obtain ⟨hg, hno⟩ := h.exit (m := m) hpc (by rw [← hm]; rfl)
      exact .inl ⟨hno.trans hc, hg, trivial⟩

theorem good_init (hi : (machine info).init s) : s.crashed = false ∧ Good info s := by
  obtain ⟨⟨-, -, -, hpc, -⟩, hclients, hregs, hlocked, hctrl, hin, hc, hf⟩ := hi
  have hfd : s.clients.ve.fd = -1 := by rw [hclients]; rfl
  refine ⟨hc, ?_⟩
  exact {
    faults := hf
    locked := by rw [hlocked, hpc]; rfl
    ctrl := fun ho => absurd hfd ho
    whole := fun ho => absurd hfd ho
    input := fun ho => absurd hfd ho
    closed := fun _ => hfd
    regs := iff_of_false (by rw [hregs]; exact Bool.noConfusion) fun ho => ho hfd
    opened := fun hp => by rw [hpc] at hp; cases hp
    alloc := fun ho => absurd hfd ho
    starting := fun _ => ⟨hclients, hregs⟩ }

theorem good_via (hN : 0 < info.reservedMemSize) (h : (machine info).Via Answers s) :
    s.crashed = false → Good info s := by
  refine h.invariant (I := fun s => s.crashed = false → Good info s) (fun s hi _ => (good_init hi).2) ?_
  intro s a s' _ ih ha hs hc'
  have hc : s.crashed = false := by
    by_contra hne
    simp [machine, VeSessions.step, hne] at hs
  rcases (ih hc).step hN hc ha hs with ⟨-, hg, -⟩ | ⟨hcr, -⟩
  · exact hg
  · rw [hcr] at hc'
    cases hc'

/-- **Sessions of the engine.** In every run, whatever the calls of `main` answer, these
calls do not end the process and each session finds the engine free and its memory whole,
and leaves it so, exactly if no session was begun without the engine open. In between it
has its input buffer, or none if `ve_malloc` failed. -/
theorem engine_sessions {info : VeInfo} (hN : 0 < info.reservedMemSize) (s : State) :
    (machine info).Via (fun s a => Answers s a ∧ Opened s a) s ↔
      (machine info).Via Answers s ∧ s.crashed = false ∧ Kept info s := by
  have hcrash := Machine.via_and_iff (M := machine info) (B := Answers) (C := Opened)
    (P := fun s => s.crashed = false) (fun _ hi => (good_init hi).1) ?_ (s := s)
  · rw [hcrash]
    exact and_congr_right fun hv => (and_iff_left_of_imp fun hc => (good_via hN hv hc).toKept).symm
  · intro s a s' hv ha hs
    have hc : s.crashed = false := by
      by_contra hne
      simp [machine, VeSessions.step, hne] at hs
    rcases (good_via hN hv hc).step hN hc ha hs with ⟨hc', -, ho⟩ | ⟨hcr, ho⟩
    · exact iff_of_true hc' ⟨hc, ho⟩
    · exact iff_of_false (by rw [hcr]; exact Bool.noConfusion) fun h => ho h.2

/-- At the start of the program. -/
def initState : State := ⟨Main.initState, ⟨Ve.static, []⟩, none, false, none, 0, false, []⟩

/-- The engine is opened, and `main` comes to its first session. -/
def toInit : List Act := .start 3 true (some 0x1000) :: List.replicate 10 (.main (.main .ok))

def atInit : State :=
  { initState with
    main := ⟨true, false, false, .initHw, .idle, false, 1, 0, false⟩
    clients := ⟨⟨3, [⟨0x3000000, 0x100000, 0⟩]⟩, []⟩
    regs := some 0x1000
    ctrl := some 0x00130007 }

theorem engine_sessions_first :
    ∃ t, (machine ⟨0xc3000000, 0x100000⟩).exec initState (toInit ++ [.hwInit (Ve.mapAt 0x10000) 640 480]) = some t ∧
      t.inputBuffer = 0x10000 ∧ Kept ⟨0xc3000000, 0x100000⟩ t := by
  have hinit : (machine ⟨0xc3000000, 0x100000⟩).init initState :=
    ⟨⟨rfl, rfl, rfl, rfl, rfl, rfl, rfl, rfl⟩, rfl, rfl, rfl, rfl, rfl, rfl, rfl⟩
  have hs : (machine ⟨0xc3000000, 0x100000⟩).Via (fun s a => Answers s a ∧ Opened s a) atInit :=
    (Machine.Via.start hinit).exec (by simp [toInit, List.replicate, Answers, Opened])
      (by decide : (machine ⟨0xc3000000, 0x100000⟩).exec initState toInit = some atInit)
  have ha : Answers atInit (.hwInit (Ve.mapAt 0x10000) 640 480) :=
    Ve.mapAt_mapped (by decide) List.not_mem_nil (Hw.inputSize 640 480) true
  have ho : Opened atInit (.hwInit (Ve.mapAt 0x10000) 640 480) := (by decide : (3 : Int32) ≠ -1)
  have ht := hs.next (a := .hwInit (Ve.mapAt 0x10000) 640 480) ⟨ha, ho⟩ rfl
  exact ⟨_, by decide, by decide, ((engine_sessions (by decide) _).1 ht).2.2⟩

end Camview.VeSessions
