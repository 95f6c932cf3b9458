/-
The paths of a `Reader`. On a path every read is answered by any byte, and reading an
index again may be answered by another one, so that what holds on all paths holds
whatever is outside a buffer.
-/
import Camview.Reader

namespace Camview.Reader

variable {α β : Type}

theorem bind_assoc (r : Reader α) (f : α → Reader β) {γ : Type} (g : β → Reader γ) :
    r >>= f >>= g = r >>= fun a => f a >>= g := by
  show (r.bind f).bind g = r.bind fun a => (f a).bind g
  induction r with
  | done a => rfl
  | read i k ih => exact congrArg (Reader.read i) (funext ih)

/-- Answered in some way, the computation returns `a` after `n` reads. -/
inductive Path : Reader α → Nat → α → Prop
  | done {a : α} : Path (.done a) 0 a
  | read {i : Nat} {k : UInt8 → Reader α} {n : Nat} {a : α} (b : UInt8) : Path (k b) n a → Path (.read i k) (n + 1) a

theorem path_pure {a b : α} {n : Nat} : Path (pure a : Reader α) n b ↔ n = 0 ∧ b = a := by
  constructor
  · intro h
    cases h
    exact ⟨rfl, rfl⟩
  · intro h
    rw [h.1, h.2]
    exact .done

theorem path_bind {r : Reader α} {f : α → Reader β} {n : Nat} {b : β} :
    Path (r >>= f) n b ↔ ∃ m a k, Path r m a ∧ Path (f a) k b ∧ n = m + k := by
  show Path (r.bind f) n b ↔ _
  induction r generalizing n with
  | done a =>
    constructor
    · intro h
      exact ⟨0, a, n, .done, h, (Nat.zero_add n).symm⟩
    · intro h
      obtain ⟨m, a', k, hr, hf, rfl⟩ := h
      cases hr
      rwa [Nat.zero_add]
  | read i k ih =>
    constructor
    · intro h
      cases h with
      | read x h =>
        obtain ⟨m, a, j, hr, hf, rfl⟩ := (ih x).1 h
        exact ⟨m + 1, a, j, .read x hr, hf, Nat.add_right_comm m j 1⟩
    · intro h
      obtain ⟨m, a, j, hr, hf, rfl⟩ := h
      cases hr with
      | read x hr =>
        rw [Nat.add_right_comm]
        exact .read x ((ih x).2 ⟨_, a, j, hr, hf, rfl⟩)

theorem path_byte_bind {i n : Nat} {f : UInt8 → Reader β} {b : β} :
    Path (byte i >>= f) n b ↔ ∃ x m, Path (f x) m b ∧ n = m + 1 := by
  constructor
  · intro h
    cases h with
    | read x h => exact ⟨x, _, h, rfl⟩
  · intro h
    obtain ⟨x, m, h, rfl⟩ := h
    exact .read x h

/-- A run on a memory is a path. -/
theorem path_run (mem : Nat → UInt8) (r : Reader α) : Path r (r.reads mem).length (r.run mem) := by
  induction r with
  | done a => exact .done
  | read i k ih => exact .read (mem i) (ih (mem i))

/-- What it may return. -/
def Returns (r : Reader α) (a : α) : Prop := ∃ n, Path r n a

theorem returns_pure {a b : α} : Returns (pure a : Reader α) b ↔ b = a := by
  unfold Returns
  simp only [path_pure]
  exact ⟨fun ⟨_, _, h⟩ => h, fun h => ⟨0, rfl, h⟩⟩

theorem returns_bind {r : Reader α} {f : α → Reader β} {b : β} :
    Returns (r >>= f) b ↔ ∃ a, Returns r a ∧ Returns (f a) b := by
  constructor
  · intro h
    obtain ⟨n, h⟩ := h
    obtain ⟨m, a, k, hr, hf, -⟩ := path_bind.1 h
    exact ⟨a, ⟨m, hr⟩, k, hf⟩
  · intro h
    obtain ⟨a, ⟨m, hr⟩, k, hf⟩ := h
    exact ⟨m + k, path_bind.2 ⟨m, a, k, hr, hf, rfl⟩⟩

/-! ## Ends -/

/-- However it is answered, it returns after at most `n` reads. -/
inductive ReadsAtMost : Nat → Reader α → Prop
  | done {n : Nat} {a : α} : ReadsAtMost n (.done a)
  | read {n i : Nat} {k : UInt8 → Reader α} : (∀ b, ReadsAtMost n (k b)) → ReadsAtMost (n + 1) (.read i k)

theorem readsAtMost_iff {r : Reader α} {n : Nat} : ReadsAtMost n r ↔ ∀ m a, Path r m a → m ≤ n := by
  induction r generalizing n with
  | done a =>
    refine iff_of_true .done ?_
    intro m a' h
    cases h
    exact Nat.zero_le n
  | read i k ih =>
    constructor
    · intro h m a hp
      cases h with
      | read h =>
        cases hp with
        | read b hp => exact Nat.succ_le_succ ((ih b).1 (h b) _ a hp)
    · intro h
      cases n with
      | zero =>
        -- A path of at least one read there always is.
        exact absurd (h _ _ (path_run (fun _ => 0) (.read i k))) (Nat.not_succ_le_zero _)
      | succ n => exact .read fun b => (ih b).2 fun m a hp => Nat.le_of_succ_le_succ (h _ a (.read b hp))

end Camview.Reader
