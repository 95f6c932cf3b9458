/-
An unbounded first-in first-out queue as a transition system, with the history
of what entered and what left: the specification a buffering scheme refines.
What left is always a prefix of what entered (`left_prefix`): nothing is
reordered, skipped, repeated or invented.
-/
import Camview.Transition
import Mathlib.Data.List.Infix

namespace Camview.Fifo

variable {α : Type}

/-- The queue, and the values that entered and left it so far. -/
structure Queue (α : Type) where
  waiting : List α
  entered : List α
  left : List α

inductive Act (α : Type)
  | enter (x : α)
  | leave

def step (q : Queue α) : Act α → Option (Queue α)
  | .enter x => some { q with waiting := q.waiting ++ [x], entered := q.entered ++ [x] }
  | .leave =>
    match q.waiting with
    | [] => none
    | x :: rest => some { q with waiting := rest, left := q.left ++ [x] }

/-- The queue that starts with `start` in it. -/
def machine (start : List α) : Machine (Queue α) (Act α) where
  init q := q = ⟨start, start, []⟩
  step := step

/-- Every value that entered has left or waits, in the order of entry. -/
theorem left_append_waiting {start : List α} {q : Queue α} (h : (machine start).Reach q) :
    q.left ++ q.waiting = q.entered := by
  refine h.invariant (I := fun q => q.left ++ q.waiting = q.entered) (fun q hi => ?_) fun q a q' _ ih hs => ?_
  · rw [show q = ⟨start, start, []⟩ from hi]; rfl
  · cases a with
    | enter x =>
      cases hs
      rw [← ih, List.append_assoc]
    | leave =>
      simp only [machine, step] at hs
      split at hs
      · cases hs
      · next hw =>
        cases hs
        rw [← ih, hw]
        simp

theorem left_prefix {start : List α} {q : Queue α} (h : (machine start).Reach q) : q.left <+: q.entered :=
  ⟨q.waiting, left_append_waiting h⟩

end Camview.Fifo
