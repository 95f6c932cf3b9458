/-
The last element of a list with a given key. A table filled by assignments, one
after the other, holds for each key what the last of them put there; what is
asked of all these values is asked of each assignment that is not overwritten.
-/
import Mathlib.Logic.Function.Basic

namespace Camview

variable {α β κ : Type} [DecidableEq κ]

/-- The last element of `l` with the key `k`. -/
def lastWith (key : α → κ) (k : κ) (l : List α) : Option α := (l.filter (key · = k)).getLast?

variable {key : α → κ} {k : κ} {l : List α} {a : α}

theorem lastWith_append (l l' : List α) :
    lastWith key k (l ++ l') = (lastWith key k l').or (lastWith key k l) := by
  unfold lastWith
  rw [List.filter_append, List.getLast?_append]

theorem lastWith_cons (a : α) (l : List α) :
    lastWith key k (a :: l) = (lastWith key k l).or (if key a = k then some a else none) := by
  rw [← List.singleton_append, lastWith_append]
  unfold lastWith
  by_cases h : key a = k
  · rw [List.filter_cons_of_pos (by simpa using h), if_pos h]
    rfl
  · rw [List.filter_cons_of_neg (by simpa using h), if_neg h]
    rfl

theorem lastWith_eq_none (h : ∀ a ∈ l, key a ≠ k) : lastWith key k l = none := by
  unfold lastWith
  rw [List.filter_eq_nil_iff.2 (by simpa using h)]
  rfl

theorem lastWith_eq_some_iff :
    lastWith key k l = some a ↔ ∃ pre post, l = pre ++ a :: post ∧ key a = k ∧ ∀ b ∈ post, key b ≠ k := by
  constructor
  · intro h
    induction l with
    | nil => cases h
    | cons c l ih =>
      rw [lastWith_cons] at h
      cases hl : lastWith key k l with
      | some b =>
        rw [hl] at h
        obtain ⟨pre, post, rfl, hrest⟩ := ih (hl.trans h)
        exact ⟨c :: pre, post, rfl, hrest⟩
      | none =>
        rw [hl, Option.none_or, Option.ite_none_right_eq_some, Option.some.injEq] at h
        obtain ⟨hk, rfl⟩ := h
        refine ⟨[], l, rfl, hk, ?_⟩
        intro b hb hbk
        unfold lastWith at hl
        rw [List.getLast?_eq_none_iff, List.filter_eq_nil_iff] at hl
        exact hl b hb (by simpa using hbk)
  · rintro ⟨pre, post, rfl, hk, hpost⟩
    rw [lastWith_append, lastWith_cons, lastWith_eq_none hpost, if_pos hk]
    rfl

theorem lastWith_mem (h : lastWith key k l = some a) : a ∈ l ∧ key a = k := by
  obtain ⟨pre, post, rfl, hk, -⟩ := lastWith_eq_some_iff.1 h
  exact ⟨by simp, hk⟩

theorem lastWith_isSome : (lastWith key k l).isSome ↔ ∃ a ∈ l, key a = k := by
  constructor
  · intro h
    obtain ⟨a, ha⟩ := Option.isSome_iff_exists.1 h
    exact ⟨a, lastWith_mem ha⟩
  · intro h
    by_contra hn
    obtain ⟨a, ha, hk⟩ := h
    have hempty := List.filter_eq_nil_iff.1 (List.getLast?_eq_none_iff.1 (Option.not_isSome_iff_eq_none.1 hn))
    exact hempty a ha (by simpa using hk)

/-- What holds of the last element of each key is what holds of every element no
later one shares the key with. -/
theorem forall_lastWith_iff {p : α → Prop} :
    (∀ k a, lastWith key k l = some a → p a) ↔
      ∀ pre a post, l = pre ++ a :: post → ¬ p a → ∃ b ∈ post, key b = key a := by
  constructor
  · intro h pre a post he hp
    by_contra hn
    refine hp (h (key a) a (lastWith_eq_some_iff.2 ⟨pre, post, he, rfl, ?_⟩))
    intro b hb hk
    exact hn ⟨b, hb, hk⟩
  · intro h k a ha
    obtain ⟨pre, post, he, rfl, hpost⟩ := lastWith_eq_some_iff.1 ha
    by_contra hp
    obtain ⟨b, hb, hk⟩ := h pre a post he hp
    exact hpost b hb hk

/-- Assignments one after the other. -/
theorem foldl_update (val : α → β) (l : List α) (f : κ → β) (k : κ) :
    (l.foldl (fun f a => Function.update f (key a) (val a)) f) k = ((lastWith key k l).map val).getD (f k) := by
  induction l generalizing f with
  | nil => rfl
  | cons a l ih =>
    rw [List.foldl_cons, ih, lastWith_cons]
    cases lastWith key k l with
    | some b => rfl
    | none =>
      rw [Option.none_or]
      by_cases h : key a = k
      · subst h
        simp
      · simp [h, Function.update_of_ne (Ne.symm h)]

end Camview
