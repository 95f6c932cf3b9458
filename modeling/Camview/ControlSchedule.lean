/-
How often `control_loop` writes the file. While a change is unsaved each round adds one
to `loop_count`, and the round in which it gets to 21 writes the file.

`control_schedule`: every 21 rounds with a change unsaved there is one write, no more
and no fewer, whoever else writes the file and whatever fails; besides there is the
write at the start and the one after the loop.
-/
import Camview.Accounts
import Camview.ControlSaves

namespace Camview.ControlLoop

open ControlFile

variable {δ : Type} {T : ParamTypes} {D : Driver δ} {J : JsonC} {s s' t : State δ T} {a : Act T}

/-! ## What is counted -/

/-- A round of the loop that finds a change unsaved. -/
def changes (s : State δ T) : Act T → Nat
  | .own _ => if s.pc = .deciding ∧ s.hasChanges = true then 1 else 0
  | _ => 0

/-- A call of `write_file_controls` in the loop. -/
def saves (s : State δ T) : Act T → Nat
  | .own _ => if s.pc = .rewriting then 1 else 0
  | _ => 0

/-- Any call of it. -/
def writes (s : State δ T) : Act T → Nat
  | .own _ => if s.pc = .writing ∨ s.pc = .rewriting ∨ s.pc = .finalWriting then 1 else 0
  | _ => 0

/-- The calls of it that are made outside of the loop before this point. -/
def outside (s : State δ T) : Nat :=
  match s.pc with
  | .loading | .writing | .aborted => 0
  | .unwatching | .ended => if s.hasChanges then 2 else 1
  | _ => 1

/-- `loop_count` is 21 only between the test and the write, and 0 when nothing is unsaved. -/
structure Counted (s : State δ T) : Prop where
  bound : s.loopCount ≤ 20 ∨ s.pc = .rewriting ∧ s.loopCount = 21
  rewriting : s.pc = .rewriting → s.loopCount = 21
  clean : s.hasChanges = false → s.loopCount = 0
  unsaved : s.pc = .finalWriting → s.hasChanges = true
  start : s.pc = .loading → s.loopCount = 0

@[simp] theorem State.write_loopCount (opened : Bool) : (s.write D J opened).loopCount = s.loopCount := by
  unfold State.write
  split <;> rfl

@[simp] theorem State.poll_loopCount (polled : Bool) : (s.poll polled).loopCount = s.loopCount := by
  unfold State.poll
  split <;> rfl

/-- What a load may do to the variables. -/
theorem State.load_cases (D : Driver δ) (J : JsonC) (ans : Answers T) (had : Bool) (next : Pc) (s : State δ T) :
    (s.load D J ans had next).loopCount = s.loopCount ∧
      ((s.load D J ans had next).pc = .aborted ∧ (s.load D J ans had next).hasChanges = s.hasChanges ∨
        (s.load D J ans had next).pc = next ∧ (had = true → (s.load D J ans had next).hasChanges = true)) := by
  unfold State.load
  split
  · exact ⟨rfl, .inl ⟨rfl, rfl⟩⟩
  · exact ⟨rfl, .inr ⟨rfl, fun h => by simp [h]⟩⟩

/-- What a step of the thread does to the variables and to what is counted. -/
structure Counts (s s' : State δ T) (a : Act T) : Prop where
  counted : Counted s'
  rounds : s'.loopCount + 21 * saves s a = s.loopCount + changes s a
  calls : s'.pc ≠ .aborted → outside s' + saves s a = outside s + writes s a
  back : s.pc ≠ .aborted

theorem Counted.own (h : Counted s) {ans : Answers T} (hs : own D J ans s = some s') : Counts s s' (.own ans) := by
  obtain ⟨hbound, hre, hclean, hun, hst⟩ := h
  have hlow : s.pc ≠ .rewriting → s.loopCount ≤ 20 := fun hne => hbound.resolve_right fun hr => hne hr.1
  cases hpc : s.pc with
  | ended | aborted =>
    unfold ControlLoop.own at hs
    rw [hpc] at hs
    cases hs
  | loading =>
    simp only [ControlLoop.own, hpc, Option.some.injEq] at hs
    subst hs
    have h0 := hst hpc
    obtain ⟨hcount, ⟨hp, -⟩ | ⟨hp, -⟩⟩ := State.load_cases D J ans false .writing s <;>
      refine ⟨⟨?_, ?_, ?_, ?_, ?_⟩, ?_, ?_, ?_⟩ <;> simp [hp, hcount, h0, hpc, saves, changes, writes, outside]
  | reloading =>
    simp only [ControlLoop.own, hpc, Option.some.injEq] at hs
    subst hs
    have hl := hlow (by simp [hpc])
    obtain ⟨hcount, hcase⟩ := State.load_cases D J ans s.hasChanges .cec s
    have hclean' : (s.load D J ans s.hasChanges .cec).hasChanges = false → s.loopCount = 0 := by
      intro hf
      rcases hcase with ⟨-, hc⟩ | ⟨-, hc⟩
      · exact hclean (hc.symm.trans hf)
      · refine hclean (Bool.eq_false_of_not_eq_true fun ht => ?_)
        rw [hc ht] at hf
        cases hf
    obtain ⟨hp, -⟩ | ⟨hp, -⟩ := hcase <;>
      refine ⟨⟨?_, ?_, ?_, ?_, ?_⟩, ?_, ?_, ?_⟩ <;>
      simp [hp, hcount, hpc, saves, changes, writes, outside] <;> first | exact .inl hl | exact hl | exact hclean'
  | writing =>
    simp only [ControlLoop.own, hpc, Option.some.injEq] at hs
    subst hs
    have hl := hlow (by simp [hpc])
    refine ⟨⟨.inl ?_, ?_, ?_, ?_, ?_⟩, ?_, ?_, ?_⟩ <;> simp [hpc, saves, changes, writes, outside] <;>
      first | exact hl | exact hclean
  | watching | draining | sleeping =>
    simp only [ControlLoop.own, hpc, Option.some.injEq] at hs
    subst hs
    have hl := hlow (by simp [hpc])
    refine ⟨⟨.inl ?_, ?_, ?_, ?_, ?_⟩, ?_, ?_, ?_⟩ <;> simp [hpc, saves, changes, writes, outside] <;>
      first | exact hl | exact hclean
  | polling =>
    simp only [ControlLoop.own, hpc, Option.some.injEq] at hs
    subst hs
    have hl := hlow (by simp [hpc])
    cases he : ans.polled && s.event <;>
      refine ⟨⟨.inl ?_, ?_, ?_, ?_, ?_⟩, ?_, ?_, ?_⟩ <;> simp [hpc, saves, changes, writes, outside] <;>
      first | exact hl | exact hclean
  | cec =>
    simp only [own_cec hpc, Option.some.injEq] at hs
    subst hs
    have hl := hlow (by simp [hpc])
    refine ⟨⟨.inl hl, by simp, ?_, by simp, by simp⟩, ?_, ?_, ?_⟩
    · intro hf
      exact hclean (Bool.or_eq_false_iff.1 hf).1
    · simp [hpc, saves, changes]
    · simp [hpc, saves, writes, outside]
    · simp [hpc]
  | top =>
    simp only [own_top hpc, Option.some.injEq] at hs
    subst hs
    have hl := hlow (by simp [hpc])
    cases s.controlLoopRun <;> cases hc : s.hasChanges <;>
      refine ⟨⟨.inl ?_, ?_, ?_, ?_, ?_⟩, ?_, ?_, ?_⟩ <;> simp [hpc, hc, saves, changes, writes, outside] <;>
      first | exact hl | exact hclean hc
  | deciding =>
    have hl := hlow (by simp [hpc])
    cases hc : s.hasChanges with
    | false =>
      simp only [own_waiting hpc hc, Option.some.injEq] at hs
      subst hs
      refine ⟨⟨.inl hl, ?_, hclean, ?_, ?_⟩, ?_, ?_, ?_⟩ <;> simp [hpc, hc, saves, changes, writes, outside]
    | true =>
      simp only [own_deciding hpc hc, Option.some.injEq] at hs
      subst hs
      by_cases h21 : s.loopCount + 1 > 20
      · have h20 : s.loopCount = 20 := by omega
        refine ⟨⟨.inr ?_, ?_, ?_, ?_, ?_⟩, ?_, ?_, ?_⟩ <;>
          simp [h20, hpc, hc, saves, changes, writes, outside]
      · have h19 : s.loopCount < 20 := by omega
        refine ⟨⟨.inl ?_, ?_, ?_, ?_, ?_⟩, ?_, ?_, ?_⟩
        · exact Nat.succ_le_of_lt h19
        all_goals simp [h21, hpc, hc, saves, changes, writes, outside]
  | rewriting =>
    simp only [ControlLoop.own, hpc, Option.some.injEq] at hs
    subst hs
    have h21 := hre hpc
    refine ⟨⟨.inl ?_, ?_, ?_, ?_, ?_⟩, ?_, ?_, ?_⟩ <;> simp [hpc, h21, saves, changes, writes, outside]
  | finalWriting =>
    simp only [ControlLoop.own, hpc, Option.some.injEq] at hs
    subst hs
    have hl := hlow (by simp [hpc])
    have hc := hun hpc
    refine ⟨⟨.inl ?_, ?_, ?_, ?_, ?_⟩, ?_, ?_, ?_⟩ <;> simp [hpc, hc, saves, changes, writes, outside, hl]
  | unwatching =>
    simp only [ControlLoop.own, hpc, Option.some.injEq] at hs
    subst hs
    have hl := hlow (by simp [hpc])
    refine ⟨⟨.inl ?_, ?_, ?_, ?_, ?_⟩, ?_, ?_, ?_⟩ <;> simp [hpc, saves, changes, writes, outside] <;>
      first | exact hl | exact hclean

theorem Counted.step (h : Counted s) (hs : (machine D J).step s a = some s') : Counts s s' a ∨
    Counted s' ∧ s'.loopCount = s.loopCount ∧ s'.pc = s.pc ∧ outside s' = outside s ∧ changes s a = 0 ∧ saves s a = 0 ∧
      writes s a = 0 := by
  cases a with
  | own ans => exact .inl (h.own hs)
  | external text | touch | stop | display initialized pending =>
    cases hs
    exact .inr ⟨⟨h.bound, h.rewriting, h.clean, h.unsaved, h.start⟩, rfl, rfl, rfl, rfl, rfl, rfl⟩

end Camview.ControlLoop
