/-
Computations that read bytes of a memory by index. One definition of a parser
gives both what it returns (`run`) and the indices it reads on the way (`reads`).
The memory answers every index, so that a read outside the buffer is not an
error of the model but an index to be found in `reads`.
-/
import Camview.FinSizes
import Mathlib.Logic.Basic

namespace Camview

/-- A computation that returns, or reads a byte and goes on. -/
inductive Reader (α : Type)
  | done (a : α)
  | read (i : Nat) (k : UInt8 → Reader α)

namespace Reader

variable {α β : Type}

/-- Sequencing. -/
def bind : Reader α → (α → Reader β) → Reader β
  | .done a, f => f a
  | .read i k, f => .read i fun b => (k b).bind f

instance : Monad Reader where
  pure := .done
  bind := .bind

/-- The byte at `i`. -/
def byte (i : Nat) : Reader UInt8 := .read i .done

/-- What it returns on a memory. -/
def run (mem : Nat → UInt8) : Reader α → α
  | .done a => a
  | .read i k => (k (mem i)).run mem

/-- The indices it reads, in order. -/
def reads (mem : Nat → UInt8) : Reader α → List Nat
  | .done _ => []
  | .read i k => i :: (k (mem i)).reads mem

variable {mem : Nat → UInt8}

@[simp] theorem run_pure (a : α) : (Pure.pure a : Reader α).run mem = a := rfl

@[simp] theorem run_bind (r : Reader α) (f : α → Reader β) : (r >>= f).run mem = (f (r.run mem)).run mem := by
  show (r.bind f).run mem = _
  induction r with
  | done a => rfl
  | read i k ih => exact ih (mem i)

@[simp] theorem reads_bind (r : Reader α) (f : α → Reader β) :
    (r >>= f).reads mem = r.reads mem ++ (f (r.run mem)).reads mem := by
  show (r.bind f).reads mem = _
  induction r with
  | done a => rfl
  | read i k ih => exact congrArg (i :: ·) (ih (mem i))

theorem run_byte_bind (i : Nat) (f : UInt8 → Reader β) : (byte i >>= f).run mem = (f (mem i)).run mem := rfl

theorem reads_byte_bind (i : Nat) (f : UInt8 → Reader β) :
    (byte i >>= f).reads mem = i :: (f (mem i)).reads mem := rfl

/-! ## One reader for each element -/

theorem run_mapM (f : α → Reader β) (l : List α) : (l.mapM f).run mem = l.map fun a => (f a).run mem := by
  have loop (l : List α) (acc : List β) :
      (List.mapM.loop f l acc).run mem = acc.reverse ++ l.map fun a => (f a).run mem := by
    induction l generalizing acc with
    | nil => exact (List.append_nil _).symm
    | cons a l ih =>
      rw [List.mapM.loop, run_bind, ih, List.reverse_cons, List.append_assoc]
      rfl
  exact loop l []

theorem reads_mapM (f : α → Reader β) (l : List α) :
    (l.mapM f).reads mem = l.flatMap fun a => (f a).reads mem := by
  have loop (l : List α) (acc : List β) :
      (List.mapM.loop f l acc).reads mem = l.flatMap fun a => (f a).reads mem := by
    induction l generalizing acc with
    | nil => rfl
    | cons a l ih => rw [List.mapM.loop, reads_bind, ih, List.flatMap_cons]
  exact loop l []

/-! ## Reads in bounds -/

/-- Every index read is below `n`. -/
def ReadsBelow (mem : Nat → UInt8) (n : Nat) (r : Reader α) : Prop := ∀ i ∈ r.reads mem, i < n

variable {n : Nat}

theorem readsBelow_pure (a : α) : ReadsBelow mem n (pure a) := fun _ h => absurd h List.not_mem_nil

theorem readsBelow_bind {r : Reader α} {f : α → Reader β} :
    ReadsBelow mem n (r >>= f) ↔ ReadsBelow mem n r ∧ ReadsBelow mem n (f (r.run mem)) := by
  unfold ReadsBelow
  rw [reads_bind]
  exact List.forall_mem_append

theorem readsBelow_byte_bind {i : Nat} {f : UInt8 → Reader β} :
    ReadsBelow mem n (byte i >>= f) ↔ i < n ∧ ReadsBelow mem n (f (mem i)) := by
  unfold ReadsBelow
  rw [reads_byte_bind]
  exact List.forall_mem_cons

/-- A computation followed by a pure step reads what it reads alone. -/
theorem readsBelow_bind_pure {r : Reader α} {f : α → β} :
    ReadsBelow mem n (r >>= fun a => pure (f a)) ↔ ReadsBelow mem n r := by
  rw [readsBelow_bind]
  exact and_iff_left (readsBelow_pure _)

/-! ## Bytes in place -/

/-- The bytes from `pos` on are `bytes`. -/
def At (mem : Nat → UInt8) (pos : Nat) (bytes : List UInt8) : Prop :=
  ∀ i (h : i < bytes.length), mem (pos + i) = bytes[i]

theorem at_nil (pos : Nat) : At mem pos [] := fun _ h => absurd h (Nat.not_lt_zero _)

theorem at_cons {pos : Nat} {b : UInt8} {bytes : List UInt8} :
    At mem pos (b :: bytes) ↔ mem pos = b ∧ At mem (pos + 1) bytes := by
  constructor
  · intro h
    refine ⟨h 0 (by simp), fun i hi => ?_⟩
    have := h (i + 1) (by simpa using hi)
    rwa [List.getElem_cons_succ, ← Nat.add_assoc, Nat.add_right_comm] at this
  · rintro ⟨h0, h⟩ i hi
    cases i with
    | zero => exact h0
    | succ i =>
      rw [List.getElem_cons_succ, ← h i (by simpa using hi)]
      congr 1
      omega

theorem at_append {pos : Nat} {as bs : List UInt8} :
    At mem pos (as ++ bs) ↔ At mem pos as ∧ At mem (pos + as.length) bs := by
  induction as generalizing pos with
  | nil => simp [at_nil]
  | cons a as ih =>
    rw [List.cons_append, at_cons, at_cons, ih, and_assoc, List.length_cons]
    rw [show pos + 1 + as.length = pos + (as.length + 1) by omega]

end Reader

end Camview
