/-
`terminate_display` against a running `display_thread_loop`. Main clears
`run_video_update` and signals `display_buffer_cond` without the lock; a display
thread that has passed `while (run_video_update)` and finds its queue empty then
waits for a signal that is already gone, and main waits in `pthread_join`.

`shutdown_heard`: that is the only way to lose the signal. It carries one
invariant (`Stopping`): once main has signalled the flag is clear, so the display
thread can wait only where it has already passed its test.
-/
import Camview.DisplayBuffers

namespace Camview.Display

variable {F β : Type}

/-- Main waits in `pthread_join` for a display thread that waits, unsignalled,
with the flag cleared. -/
structure LostWakeup (s : State F β) : Prop where
  flag : s.runVideoUpdate = false
  main : s.main = .joining
  display : s.display = .waiting false

/-- Where the display thread decides to wait: past its test, its queue empty. -/
def AboutToWait (s : State F β) : Prop := s.display = .lock ∧ s.currentDisplayBuffer.s0 = 0

/-- `terminate_display` does not signal a display thread that is about to wait. -/
def SignalHeard (s : State F β) : Act F β → Prop
  | .main => s.main = .signal → ¬ AboutToWait s
  | _ => True

/-! ## The flag and the decoder -/

/-- Main's place in `terminate_display` and what it has done so far: the decoder
has ended before, and the flag is clear from the signal on. -/
structure Stopping (s : State F β) : Prop where
  decoder : s.main ≠ .running → s.decoder = .ended
  flag : s.main = .signal ∨ s.main = .joining → s.runVideoUpdate = false

theorem stopping_initDisplay (S : Session F β) : Stopping (initDisplay S) :=
  ⟨fun h => absurd rfl h, fun h => by rcases h with h | h <;> cases h⟩

theorem Stopping.step {P : Planes} {s s' : State F β} {a : Act F β} (h : Stopping s) (hs : Trans P s a s') :
    Stopping s' := by
  -- A decoder that takes a step has not ended, so main is still running.
  have hrun : s.decoder ≠ .ended → s.main = .running := fun hd => by
    by_contra hm
    exact hd (h.decoder hm)
  cases hs with
  | getAvailable hd | getWait hd | getFail hd | wakeDecoder hd | put hd | endDecoder hd =>
    have hm := hrun (by simp [hd])
    exact ⟨fun e => absurd hm e, fun e => by rcases e with e | e <;> exact absurd (hm.symm.trans e) (by simp)⟩
  | giveBack =>
    refine ⟨fun e => ?_, h.flag⟩
    show s.decoder.signal = .ended
    rw [h.decoder e]
    rfl
  | terminate _ hd | terminateNothing _ hd => exact ⟨fun _ => hd, fun e => by simp at e⟩
  | clearInitialized hm | tearDown hm => exact ⟨fun _ => h.decoder (by simp [hm]), fun e => by simp at e⟩
  | clearRun hm => exact ⟨fun _ => h.decoder (by simp [hm]), fun _ => rfl⟩
  | signal hm => exact ⟨fun _ => h.decoder (by simp [hm]), fun _ => h.flag (.inl hm)⟩
  | join hm => exact ⟨fun _ => h.decoder (by simp [hm]), fun e => by simp at e⟩
  | _ => exact ⟨h.decoder, h.flag⟩

variable [DecidableEq β]

theorem reach_stopping {S : Session F β} {s : State F β} (h : (machine S).Reach s) : Stopping s :=
  h.invariant (fun _ hi => hi ▸ stopping_initDisplay S) fun _ _ _ _ hi hs => hi.step (step_cases hs).2

/-! ## Heard -/

/-- After main has signalled, the display thread neither waits unsignalled nor is about to. -/
def Heard (s : State F β) : Prop :=
  s.main = .joining → s.display ≠ .waiting false ∧ ¬ AboutToWait s

omit [DecidableEq β] in
/-- A display thread that is neither waiting nor at its lock section is not lost. -/
theorem heard_of_display {s : State F β} (hw : s.display ≠ .waiting false) (hl : s.display ≠ .lock) : Heard s :=
  fun _ => ⟨hw, fun h => hl h.1⟩

omit [DecidableEq β] in
theorem Heard.step {P : Planes} {s s' : State F β} {a : Act F β} (h : Heard s) (hst : Stopping s)
    (hc : SignalHeard s a) (hs : Trans P s a s') : Heard s' := by
  cases hs with
  | testOn hd hr =>
    -- The flag is clear once main has signalled, so the test does not pass.
    intro hm
    have hf := hst.flag (.inr hm)
    rw [hr] at hf
    cases hf
  | wait hd hq => exact fun hm => absurd ⟨hd, hq⟩ (h hm).2
  | signal hm =>
    refine fun _ => ⟨s.display.signal_ne_waiting, fun hw => hc hm ?_⟩
    exact ⟨(s.display.signal_eq_iff .lock (by simp)).1 hw.1, hw.2⟩
  | put hd =>
    intro hm
    have hmain : s.main ≠ .running := by
      rw [show s.main = .joining from hm]
      simp
    rw [hst.decoder hmain] at hd
    cases hd
  | apply =>
    rename_i block _ _
    cases block <;> exact heard_of_display (by simp [Block.next]) (by simp [Block.next])
  | take | wakeTake | wakeEmpty | testOff | showHdmi | noHdmi | showComposite | noComposite | drawn | pending
  | noPending | clearPending | giveBack | noGiveBack =>
    exact heard_of_display (by simp [Display.takeHead, Display.showHdmi, Display.showComposite, Display.returnPrev])
      (by simp [Display.takeHead, Display.showHdmi, Display.showComposite, Display.returnPrev])
  | terminate | terminateNothing | clearInitialized | clearRun | join | tearDown => exact fun hm => by simp at hm
  | _ => exact h

theorem via_heard {S : Session F β} {s : State F β} (h : (machine S).Via SignalHeard s) : Heard s :=
  h.invariant (fun s hi hm => by rw [show s = initDisplay S from hi] at hm; cases hm)
    fun _ _ _ hv hi hc hs => hi.step (reach_stopping hv.reach) hc (step_cases hs).2

/-! ## Lost -/

omit [DecidableEq β] in
/-- Nothing but a return of the wait without a signal leaves a lost wake-up. -/
theorem LostWakeup.stays {P : Planes} {s s' : State F β} {a : Act F β} (h : LostWakeup s) (hst : Stopping s)
    (hx : s'.exited = false) (ha : a ≠ .wakeDisplay) (hs : Trans P s a s') : LostWakeup s' := by
  have hm := h.main
  have hd := h.display
  have he := hst.decoder (by simp [hm])
  cases hs with
  | decode | setDrmSame | setDrm | setDrmTest | setDrmSend | setDrmDefer => exact ⟨h.flag, hm, hd⟩
  | wakeTake | wakeEmpty => exact absurd rfl ha
  | exit => cases hx
  | join _ hf => simp [hd] at hf
  | _ => simp_all

/-- **The shutdown signal is heard.** In every run in which `terminate_display`
does not signal a display thread about to wait, the wake-up is not lost. Where it
does, the display thread's next step loses it, and no step of any thread gets it
back but a spurious wake-up. -/
theorem shutdown_heard (S : Session F β) :
    (∀ s, (machine S).Via SignalHeard s → ¬ LostWakeup s) ∧
    (∀ s a s' f, (machine S).Reach s → (machine S).step s a = some s' → ¬ SignalHeard s a →
      ∃ t, (machine S).step s' (.display f) = some t ∧ LostWakeup t) ∧
    ∀ s a s', (machine S).Reach s → LostWakeup s → a ≠ .wakeDisplay → (machine S).step s a = some s' →
      LostWakeup s' := by
  refine ⟨fun s h hl => (via_heard h hl.main).1 hl.display, fun s a s' f hr hs hc => ?_,
    fun s a s' hr hl ha hs => ?_⟩
  · obtain ⟨hx, ht⟩ := step_cases hs
    cases ht with
    | signal hm =>
      obtain ⟨hl, hq⟩ : AboutToWait s := by
        by_contra hw
        exact hc fun _ => hw
      have hflag := (reach_stopping hr).flag (.inl hm)
      refine ⟨{ s with main := .joining, display := .waiting false }, ?_, hflag, rfl, rfl⟩
      simp [machine, step, hx, displayThreadLoop, hl, DisplayPc.signal, hq]
    | terminate hm | terminateNothing hm | clearInitialized hm | clearRun hm | join hm | tearDown hm =>
      exact absurd (fun e => by rw [hm] at e; cases e) hc
    | _ => exact absurd trivial hc
  · obtain ⟨hx, ht⟩ := step_cases hs
    refine hl.stays (reach_stopping hr) ?_ ha ht
    cases ht with
    | exit hd => rw [hl.display] at hd; simp at hd
    | _ => exact hx

/-- The display thread passes its test on an empty queue, and main shuts down. -/
def shutdownRace : List (Act Nat Nat) :=
  List.replicate 8 (.display false) ++ [.endDecoder, .main, .main, .main, .main, .display false]

/-- The signal comes between the test and the wait, and is lost. -/
theorem not_shutdown_heard : ¬ ∀ s, (machine sample).Reach s → ¬ LostWakeup s := by
  intro h
  obtain ⟨s, hs, hp⟩ := Machine.reach_of_exec (M := machine sample) shutdownRace
    (fun s => s.runVideoUpdate = false ∧ s.main = .joining ∧ s.display = .waiting false) rfl (by decide)
  simp only [decide_eq_true_eq] at hp
  exact h s hs ⟨hp.1, hp.2.1, hp.2.2⟩

/-- The display thread waits when main shuts down. -/
def shutdownOfWaiting : List (Act Nat Nat) :=
  List.replicate 9 (.display false) ++ [.endDecoder, .main, .main, .main, .main]

omit [DecidableEq β] in
instance (s : State F β) : (a : Act F β) → Decidable (SignalHeard s a)
  | .main => inferInstanceAs (Decidable (_ = _ → ¬ (_ ∧ _)))
  | .get | .wakeDecoder | .decode _ | .put | .endDecoder | .display _ | .wakeDisplay | .setDrm _ _ | .setDrmNext =>
    isTrue trivial

theorem shutdown_heard_sample :
    (∃ s, (machine sample).execIf SignalHeard (initDisplay sample) shutdownOfWaiting = some s ∧ s.main = .joining ∧
      s.display = .waiting true ∧ ¬ LostWakeup s) ∧
    ∃ s s', (machine sample).exec (initDisplay sample) (shutdownRace.take 12) = some s ∧
      (machine sample).step s .main = some s' ∧
      ∃ t, (machine sample).step s' (.display false) = some t ∧ LostWakeup t ∧
        ∃ u, (machine sample).step t (.setDrm .fcc 5) = some u ∧ LostWakeup u := by
  constructor
  · obtain ⟨s, hs, hm, hd⟩ : ∃ s, (machine sample).execIf SignalHeard (initDisplay sample) shutdownOfWaiting = some s ∧
        s.main = .joining ∧ s.display = .waiting true := ⟨_, rfl, rfl, rfl⟩
    exact ⟨s, hs, hm, hd, (shutdown_heard sample).1 s (.execIf (.start rfl) hs)⟩
  · obtain ⟨s, hs, s', hs', hw⟩ : ∃ s, (machine sample).exec (initDisplay sample) (shutdownRace.take 12) = some s ∧
        ∃ s', (machine sample).step s .main = some s' ∧ s.main = .signal ∧ AboutToWait s :=
      ⟨_, rfl, _, rfl, rfl, rfl, rfl⟩
    have hr : (machine sample).Reach s := (Machine.Reach.start rfl).exec hs
    obtain ⟨t, ht, hl⟩ := (shutdown_heard sample).2.1 s _ s' false hr hs' fun hc => hc hw.1 hw.2
    have hrt := (hr.next hs').next ht
    obtain ⟨u, hu⟩ : ∃ u, (machine sample).step t (.setDrm .fcc 5) = some u := by
      cases hs
      cases hs'
      cases ht
      exact ⟨_, rfl⟩
    exact ⟨s, s', hs, hs', t, ht, hl, u, hu, (shutdown_heard sample).2.2 t _ u hrt hl (by simp) hu⟩

end Camview.Display
