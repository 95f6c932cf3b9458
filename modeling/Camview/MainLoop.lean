/-
`main.c`: the run flags, what `main` does with them, and the SIGINT handler.

Every call of a device is one step with an `Outcome`; so are the calls of the
other files, which are taken to return. `hw_close` need not: `Camview.DisplayShutdown`
is about the wake-up it may lose. The handler may run in any thread, so each of its
three assignments is a step. The capture thread clears two of the flags when a call of
its own fails; the threads set none.
-/
import Camview.Transition

namespace Camview.Main

/-! ## State -/

/-- Where `main` is, named after what it does next. -/
inductive Pc
  /-- from `signal` to `device_loop_run = 1` -/
  | starting
  /-- `while (device_loop_run)` -/
  | top
  | opening
  /-- `VIDIOC_ENUM_FMT` -/
  | enumerating
  /-- `VIDIOC_S_FMT` -/
  | setting
  /-- `VIDIOC_G_FMT` -/
  | getting
  /-- `VIDIOC_REQBUFS` -/
  | requesting
  /-- `VIDIOC_QUERYBUF`, `mmap` and `VIDIOC_QBUF` of buffer `i`, with `has_buffer_mapped` -/
  | querying (i : Nat) (mapped : Bool)
  | initCec
  | initHw
  /-- `capture_loop_run = 1` -/
  | runCapture
  /-- `control_loop_run = 1` -/
  | runControl
  | createCapture
  | createControl
  | sleeping
  /-- `capture_loop_run == 0` -/
  | testCapture
  /-- `control_loop_run == 0` -/
  | testControl
  | joinCapture
  | cancelCapture
  | joinControl
  | cancelControl
  | unmapping
  /-- `close(video_device.device_file)` -/
  | closing
  /-- `hw_close` -/
  | closingHw
  | stoppingCec
  /-- `stop_drm` and `ve_close` -/
  | stopping
  | ended
deriving DecidableEq, Repr

/-- How far `signal_callback_handler` is. -/
inductive Handler
  | idle
  /-- before `capture_loop_run = 0` -/
  | capture
  /-- before `control_loop_run = 0` -/
  | control
  | done
deriving DecidableEq, Repr

/-- The flags, and the history: whether a capture thread was created, the
sessions begun, those begun when the handler began, and whether a flag was set
after the handler ended. -/
structure State where
  deviceLoopRun : Bool
  captureLoopRun : Bool
  controlLoopRun : Bool
  pc : Pc
  handler : Handler
  created : Bool
  sessions : Nat
  sessionsAtSignal : Nat
  setAfter : Bool
deriving DecidableEq, Repr

/-! ## Steps -/

/-- How a call turns out. `other` is a format that is not MJPEG. -/
inductive Outcome
  | ok
  | fail
  | other
deriving DecidableEq, Repr

/-- `CAPTURE_BUFFER_COUNT`. -/
def captureBufferCount : Nat := 3

def State.goto (s : State) (pc : Pc) : State := { s with pc }

/-- An assignment of 1 to a flag. -/
def State.setsFlag (s : State) : State := { s with setAfter := s.setAfter || s.handler == .done }

/-- A step of `main`. -/
def mainStep (o : Outcome) (s : State) : Option State :=
  match s.pc with
  | .starting => some { s.setsFlag with deviceLoopRun := true, pc := .top }
  | .top =>
    if s.deviceLoopRun then some { s with sessions := s.sessions + 1, pc := .opening }
    else some (s.goto .stopping)
  | .opening => some (s.goto (if o = .ok then .enumerating else .top))
  | .enumerating =>
    match o with
    | .ok => some (s.goto .setting)
    | .other => some s
    | .fail => some (s.goto .top)
  | .setting => some (s.goto .getting)
  | .getting => some (s.goto (if o = .ok then .requesting else .top))
  | .requesting => some (s.goto (if o = .ok then .querying 0 false else .top))
  | .querying i mapped =>
    if o = .ok then some (s.goto (if i + 1 < captureBufferCount then .querying (i + 1) true else .initCec))
    else some (s.goto (if mapped then .initCec else .top))
  | .initCec => some (s.goto .initHw)
  | .initHw => some (s.goto .runCapture)
  | .runCapture => some { s.setsFlag with captureLoopRun := true, pc := .runControl }
  | .runControl => some { s.setsFlag with controlLoopRun := true, pc := .createCapture }
  | .createCapture => some { s with created := true, pc := .createControl }
  | .createControl => some (s.goto .sleeping)
  | .sleeping => some (s.goto .testCapture)
  | .testCapture => some (s.goto (if s.captureLoopRun then .sleeping else .testControl))
  | .testControl => some (s.goto (if s.controlLoopRun then .sleeping else .joinCapture))
  | .joinCapture => some (s.goto (if o = .ok then .joinControl else .cancelCapture))
  | .cancelCapture => some (s.goto .joinControl)
  | .joinControl => some (s.goto (if o = .ok then .unmapping else .cancelControl))
  | .cancelControl => some (s.goto .unmapping)
  | .unmapping => some (s.goto .closing)
  | .closing => some (s.goto .closingHw)
  | .closingHw => some (s.goto .stoppingCec)
  | .stoppingCec => some (s.goto .top)
  | .stopping => some (s.goto .ended)
  | .ended => none

/-- The first statement of `signal_callback_handler`. -/
def State.signalled (s : State) : State :=
  { s with deviceLoopRun := false, handler := .capture, sessionsAtSignal := s.sessions }

inductive Act
  | main (o : Outcome)
  /-- `device_loop_run = 0`, the first statement of the handler -/
  | signal
  /-- a further statement of the handler -/
  | handle
  /-- `capture_loop_run = 0` in `capture_loop` -/
  | clearCapture
  /-- `control_loop_run = 0` in `capture_loop` -/
  | clearControl
deriving DecidableEq, Repr

def step (s : State) : Act → Option State
  | .main o => mainStep o s
  | .signal =>
    if s.handler = .idle ∧ s.pc ≠ .ended then some s.signalled else none
  | .handle =>
    match s.handler with
    | .capture => some { s with captureLoopRun := false, handler := .control }
    | .control => some { s with controlLoopRun := false, handler := .done }
    | _ => none
  | .clearCapture => if s.created then some { s with captureLoopRun := false } else none
  | .clearControl => if s.created then some { s with controlLoopRun := false } else none

/-- The program from the call of `signal` on. -/
def machine : Machine State Act where
  init s := s.deviceLoopRun = false ∧ s.captureLoopRun = false ∧ s.controlLoopRun = false ∧ s.pc = .starting ∧
    s.handler = .idle ∧ s.created = false ∧ s.sessions = 0 ∧ s.setAfter = false
  step := step

/-! ## After the signal -/

/-- `main` is on its way to set a flag, past the last test that could stop it. -/
def Pc.settingUp : Pc → Bool
  | .starting | .opening | .enumerating | .setting | .getting | .requesting | .querying _ _ | .initCec | .initHw
  | .runCapture | .runControl => true
  | _ => false

/-- The steps of `main` to its end, from a point where it is not setting up and
once the flags are 0. -/
def Pc.left : Pc → Nat
  | .createCapture => 15
  | .createControl => 14
  | .sleeping => 13
  | .testCapture => 12
  | .testControl => 11
  | .joinCapture => 10
  | .cancelCapture => 9
  | .joinControl => 8
  | .cancelControl => 7
  | .unmapping => 6
  | .closing => 5
  | .closingHw => 4
  | .stoppingCec => 3
  | .top => 2
  | .stopping => 1
  | _ => 0

/-- The handler has run for good: the flags are 0, none was set again, no session
was begun, and every step of `main` brings it nearer to its end, which it can
always take. -/
structure Final (s : State) : Prop where
  deviceLoopRun : s.deviceLoopRun = false
  captureLoopRun : s.captureLoopRun = false
  controlLoopRun : s.controlLoopRun = false
  setAfter : s.setAfter = false
  sessions : s.sessions = s.sessionsAtSignal
  ending : ∀ o, s.pc = .ended ∨ ∃ s', mainStep o s = some s' ∧ s'.pc.left < s.pc.left

variable {s s' : State} {o : Outcome}

/-- With `device_loop_run` 0, `main` goes on without setting a flag. -/
theorem mainStep_stopped (hd : s.deviceLoopRun = false) (hp : s.pc.settingUp = false)
    (hs : mainStep o s = some s') :
    s'.pc.settingUp = false ∧ s' = { s with pc := s'.pc, created := s'.created } := by
  obtain ⟨d, c, k, pc, h, cr, n, m, f⟩ := s
  cases hd
  cases pc with
  | starting | opening | enumerating | setting | getting | requesting | querying | initCec | initHw | runCapture
  | runControl => exact absurd hp Bool.noConfusion
  | ended => cases hs
  | createCapture | createControl | sleeping | cancelCapture | cancelControl | unmapping | closing | closingHw
  | stoppingCec | stopping | top =>
    cases hs
    exact ⟨rfl, rfl⟩
  | testCapture | testControl | joinCapture | joinControl =>
    cases hs
    refine ⟨?_, rfl⟩
    dsimp only [State.goto]
    split <;> rfl

/-- With the other two 0 as well, it comes nearer to its end. -/
theorem mainStep_left (hd : s.deviceLoopRun = false) (hc : s.captureLoopRun = false) (hk : s.controlLoopRun = false)
    (hp : s.pc.settingUp = false) (o : Outcome) :
    s.pc = .ended ∨ ∃ s', mainStep o s = some s' ∧ s'.pc.left < s.pc.left := by
  obtain ⟨d, c, k, pc, h, cr, n, m, f⟩ := s
  cases hd
  cases hc
  cases hk
  cases pc with
  | starting | opening | enumerating | setting | getting | requesting | querying | initCec | initHw | runCapture
  | runControl => exact absurd hp Bool.noConfusion
  | ended => exact .inl rfl
  | createCapture | createControl | sleeping | cancelCapture | cancelControl | unmapping | closing | closingHw
  | stoppingCec | stopping | top | testCapture | testControl => exact .inr ⟨_, rfl, Nat.lt_succ_self _⟩
  | joinCapture | joinControl => exact .inr ⟨_, rfl, by cases o <;> simp [State.goto, Pc.left]⟩

/-- A flag is set after the handler only once the handler has ended. -/
theorem mainStep_handler (hs : mainStep o s = some s') :
    s'.handler = s.handler ∧ (s.handler ≠ .done → s'.setAfter = s.setAfter) := by
  obtain ⟨d, c, k, pc, h, cr, n, m, f⟩ := s
  cases pc with
  | starting | runCapture | runControl =>
    cases hs
    exact ⟨rfl, fun hh => by simp [State.setsFlag, hh]⟩
  | top | querying =>
    simp only [mainStep] at hs
    split at hs <;> exact Option.some.inj hs ▸ ⟨rfl, fun _ => rfl⟩
  | enumerating =>
    cases o <;> exact Option.some.inj hs ▸ ⟨rfl, fun _ => rfl⟩
  | ended => cases hs
  | _ => exact Option.some.inj hs ▸ ⟨rfl, fun _ => rfl⟩

/-! ## Before the signal -/

theorem reach_setAfter (h : machine.Reach s) : s.handler ≠ .done → s.setAfter = false := by
  refine h.invariant (I := fun s => s.handler ≠ .done → s.setAfter = false) ?_ ?_
  · intro s ⟨_, _, _, _, _, _, _, hf⟩ _
    exact hf
  · intro s a s' hr hi hs hn
    cases a with
    | main o =>
      obtain ⟨hh, hf⟩ := mainStep_handler hs
      rw [hh] at hn
      rw [hf hn, hi hn]
    | signal =>
      simp only [machine, step, Option.ite_none_right_eq_some, Option.some.injEq] at hs
      obtain ⟨⟨hh, -⟩, rfl⟩ := hs
      exact hi (by simp [hh])
    | handle =>
      simp only [machine, step] at hs
      split at hs
      · next hh =>
        cases hs
        exact hi (by simp [hh])
      · cases hs
        exact absurd rfl hn
      · cases hs
    | clearCapture | clearControl =>
      simp only [machine, step, Option.ite_none_right_eq_some, Option.some.injEq] at hs
      obtain ⟨-, rfl⟩ := hs
      exact hi hn

/-! ## Setting up -/

/-- The steps of `main` to the next assignment of 1 to a flag, when no call fails. -/
def Pc.ahead : Pc → Nat
  | .opening => 10
  | .enumerating => 9
  | .setting => 8
  | .getting => 7
  | .requesting => 6
  | .querying i _ => 3 + (captureBufferCount - 1 - i)
  | .initCec => 2
  | .initHw => 1
  | _ => 0

/-- When no call fails, `main` comes nearer to setting a flag, and then sets it. -/
theorem mainStep_ok (hh : s.handler = .done) (hp : s.pc.settingUp = true) :
    ∃ s', mainStep .ok s = some s' ∧
      (s'.setAfter = true ∨ s'.handler = .done ∧ s'.pc.settingUp = true ∧ s'.pc.ahead < s.pc.ahead) := by
  obtain ⟨d, c, k, pc, h, cr, n, m, f⟩ := s
  cases hh
  cases pc with
  | starting | runCapture | runControl => exact ⟨_, rfl, .inl (Bool.or_true f)⟩
  | opening | enumerating | setting | getting | requesting | initCec | initHw =>
    exact ⟨_, rfl, .inr ⟨rfl, rfl, Nat.lt_succ_self _⟩⟩
  | querying i mapped =>
    refine ⟨_, rfl, .inr ⟨rfl, ?_⟩⟩
    dsimp only [State.goto]
    by_cases hi : i + 1 < captureBufferCount
    · rw [if_pos hi]
      refine ⟨rfl, ?_⟩
      show 3 + (captureBufferCount - 1 - (i + 1)) < 3 + (captureBufferCount - 1 - i)
      omega
    · rw [if_neg hi]
      refine ⟨rfl, ?_⟩
      show 2 < 3 + (captureBufferCount - 1 - i)
      omega
  | _ => exact absurd hp Bool.noConfusion

/-- From any of these points `main` can get to set a flag. -/
theorem setsFlag_of_settingUp {t : State} (ht : machine.Steps (fun _ _ => True) t s) (hh : s.handler = .done)
    (hp : s.pc.settingUp = true) :
    ∃ s', machine.Steps (fun _ _ => True) t s' ∧ s'.handler = .done ∧ s'.setAfter = true := by
  induction hn : s.pc.ahead using Nat.strongRecOn generalizing s with
  | _ n ih =>
    obtain ⟨s₁, hs, h⟩ := mainStep_ok hh hp
    have hs₁ : machine.step s (.main .ok) = some s₁ := hs
    have ht₁ : machine.Steps (fun _ _ => True) t s₁ := ht.tail trivial hs₁
    rcases h with hf | ⟨hh₁, hp₁, hlt⟩
    · exact ⟨s₁, ht₁, (mainStep_handler hs).1.trans hh, hf⟩
    · exact ih _ (hn ▸ hlt) ht₁ hh₁ hp₁ rfl

/-! ## Not setting up -/

/-- The handler has begun while `main` was not setting up. -/
structure Stopped (s : State) : Prop where
  handler : s.handler ≠ .idle
  deviceLoopRun : s.deviceLoopRun = false
  captureLoopRun : s.handler ≠ .capture → s.captureLoopRun = false
  controlLoopRun : s.handler = .done → s.controlLoopRun = false
  settingUp : s.pc.settingUp = false
  setAfter : s.setAfter = false
  sessions : s.sessions = s.sessionsAtSignal

theorem Stopped.final (h : Stopped s) (hd : s.handler = .done) : Final s where
  deviceLoopRun := h.deviceLoopRun
  captureLoopRun := h.captureLoopRun (by simp [hd])
  controlLoopRun := h.controlLoopRun hd
  setAfter := h.setAfter
  sessions := h.sessions
  ending := mainStep_left h.deviceLoopRun (h.captureLoopRun (by simp [hd])) (h.controlLoopRun hd) h.settingUp

theorem Stopped.step (h : Stopped s) {a : Act} (hs : machine.step s a = some s') : Stopped s' := by
  cases a with
  | main o =>
    obtain ⟨hp, he⟩ := mainStep_stopped h.deviceLoopRun h.settingUp hs
    rw [he]
    exact { h with settingUp := hp }
  | signal =>
    simp only [machine, Main.step, Option.ite_none_right_eq_some] at hs
    exact absurd hs.1.1 h.handler
  | handle =>
    simp only [machine, Main.step] at hs
    split at hs
    · cases hs
      exact { h with
        handler := Handler.noConfusion
        captureLoopRun := fun _ => rfl
        controlLoopRun := Handler.noConfusion }
    · next hh =>
      cases hs
      exact { h with
        handler := Handler.noConfusion
        captureLoopRun := fun _ => h.captureLoopRun (by simp [hh])
        controlLoopRun := fun _ => rfl }
    · cases hs
  | clearCapture =>
    simp only [machine, Main.step, Option.ite_none_right_eq_some, Option.some.injEq] at hs
    obtain ⟨-, rfl⟩ := hs
    exact { h with captureLoopRun := fun _ => rfl }
  | clearControl =>
    simp only [machine, Main.step, Option.ite_none_right_eq_some, Option.some.injEq] at hs
    obtain ⟨-, rfl⟩ := hs
    exact { h with controlLoopRun := fun _ => rfl }

/-- **When SIGINT is final.** The handler may begin at any point of a run; whatever
happens then, no flag is set to 1 after it has ended, no session is begun and
`main` comes to its end, exactly if it began while `main` was not between a test
of `device_loop_run` (or the start) and the assignments that follow it. `hw_close` is
taken to return. -/
theorem sigint_final {t : State} (h : machine.Reach s) (hs : machine.step s .signal = some t) :
    (∀ s', machine.Steps (fun _ _ => True) t s' → s'.handler = .done → Final s') ↔ s.pc.settingUp = false := by
  have hreach : machine.Reach t := h.next hs
  simp only [machine, step, Option.ite_none_right_eq_some, Option.some.injEq] at hs
  obtain ⟨⟨hi, -⟩, rfl⟩ := hs
  constructor
  · intro hf
    cases hp : s.pc.settingUp with
    | false => rfl
    | true =>
      -- The handler runs to its end, and then `main` sets a flag.
      have hrun : machine.Steps (fun _ _ => True) s.signalled
          { s.signalled with captureLoopRun := false, controlLoopRun := false, handler := .done } :=
        Machine.Steps.exec .refl (rfl : machine.exec s.signalled [.handle, .handle] = some _)
      obtain ⟨s', hst, hd, hset⟩ := setsFlag_of_settingUp hrun rfl hp
      exact absurd (hset.symm.trans (hf s' hst hd).setAfter) Bool.noConfusion
  · intro hp s' hst hd
    refine (hst.invariant (I := Stopped) hreach (fun _ _ _ => trivial)
      (fun _ _ _ _ hs _ hstep => hs.step hstep) ?_).final hd
    exact ⟨Handler.noConfusion, rfl, fun hc => absurd rfl hc, Handler.noConfusion, hp,
      reach_setAfter hreach Handler.noConfusion, rfl⟩

/-- At the start of the program. -/
def initState : State := ⟨false, false, false, .starting, .idle, false, 0, 0, false⟩

/-- Into the wait loop of the first session. -/
def toSession : List Act := List.replicate 16 (.main .ok)

theorem sigint_final_session : ∃ s t, machine.exec initState toSession = some s ∧
    machine.step s .signal = some t ∧ s.pc = .sleeping ∧
    ∀ s', machine.Steps (fun _ _ => True) t s' → s'.handler = .done → Final s' := by
  obtain ⟨s, hs, hp⟩ : ∃ s, machine.exec initState toSession = some s ∧ s.pc = .sleeping ∧ s.handler = .idle :=
    ⟨_, rfl, rfl, rfl⟩
  have hr : machine.Reach s := Machine.Reach.exec (.start ⟨rfl, rfl, rfl, rfl, rfl, rfl, rfl, rfl⟩) hs
  have ht : ∃ t, machine.step s .signal = some t := ⟨_, if_pos ⟨hp.2, by simp [hp.1]⟩⟩
  obtain ⟨t, ht⟩ := ht
  exact ⟨s, t, hs, ht, hp.1, (sigint_final hr ht).2 (by rw [hp.1]; rfl)⟩

/-- The signal comes while `main` opens the video device: the session begins. -/
theorem not_sigint_final :
    ∃ s, machine.Reach s ∧ s.handler = .done ∧ s.captureLoopRun = true ∧ s.controlLoopRun = true ∧ ¬ Final s := by
  obtain ⟨s, hs, hp⟩ := Machine.reach_of_exec (M := machine) (s := initState)
    (List.flatten [[.main .ok, .main .ok, .signal, .handle, .handle], List.replicate 13 (.main .ok)])
    (fun s => s.handler == .done && s.captureLoopRun && s.controlLoopRun)
    ⟨rfl, rfl, rfl, rfl, rfl, rfl, rfl, rfl⟩ (by decide)
  simp only [Bool.and_eq_true, beq_iff_eq] at hp
  refine ⟨s, hs, hp.1.1, hp.1.2, hp.2, fun hf => ?_⟩
  exact Bool.noConfusion (hp.2.symm.trans hf.controlLoopRun)

end Camview.Main
