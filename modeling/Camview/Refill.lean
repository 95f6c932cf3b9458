/-
An array that is filled from the front again and again and never cleared: what is
beyond the end of a list stays there from the last list that was longer.
-/
import Camview.LastWith
import Mathlib.Data.List.GetD
import Mathlib.Data.List.Induction

namespace Camview

variable {α : Type} {n : Nat} {es : List α} {A : Fin n → α} {k : Fin n}

/-- The list from the first entry on, as far as there is room; the other entries are
left as they were. -/
def refill (es : List α) (A : Fin n → α) : Fin n → α := fun k => es.getD k (A k)

/-- One list after the other. -/
def refills (ls : List (List α)) (A : Fin n → α) : Fin n → α := ls.foldl (fun A es => refill es A) A

theorem refills_append (ls : List (List α)) (es : List α) (A : Fin n → α) :
    refills (ls ++ [es]) A = refill es (refills ls A) :=
  List.foldl_append

/-- What the lists leave at `k`: the entry of the last of them that is longer than `k`. -/
def leftAt (ls : List (List α)) (k : Nat) : Option α :=
  (lastWith (fun es => decide (k < es.length)) true ls).bind (·[k]?)

theorem leftAt_append_of_lt (ls : List (List α)) {k : Nat} (h : k < es.length) : leftAt (ls ++ [es]) k = some es[k] := by
  unfold leftAt
  rw [lastWith_append, lastWith_cons, if_pos (decide_eq_true h)]
  exact List.getElem?_eq_getElem h

theorem leftAt_append_of_le (ls : List (List α)) {k : Nat} (h : es.length ≤ k) : leftAt (ls ++ [es]) k = leftAt ls k := by
  unfold leftAt
  rw [lastWith_append, lastWith_cons, if_neg (by simpa using h)]
  rfl

/-- It is the entry there of a list that only shorter ones come after. -/
theorem leftAt_eq_some_iff {ls : List (List α)} {k : Nat} {a : α} :
    leftAt ls k = some a ↔
      ∃ pre es post, ls = pre ++ es :: post ∧ es[k]? = some a ∧ ∀ es' ∈ post, es'.length ≤ k := by
  unfold leftAt
  rw [Option.bind_eq_some_iff]
  simp only [lastWith_eq_some_iff, decide_eq_true_eq, ne_eq, Nat.not_lt]
  constructor
  · rintro ⟨es, ⟨pre, post, hls, -, hpost⟩, ha⟩
    exact ⟨pre, es, post, hls, ha, hpost⟩
  · rintro ⟨pre, es, post, hls, ha, hpost⟩
    exact ⟨es, ⟨pre, post, hls, (List.getElem?_eq_some_iff.1 ha).1, hpost⟩, ha⟩

theorem refills_apply (ls : List (List α)) (A : Fin n → α) (k : Fin n) :
    refills ls A k = (leftAt ls k).getD (A k) := by
  induction ls using List.reverseRecOn with
  | nil => rfl
  | append_singleton ls es ih =>
    rw [refills_append]
    unfold refill
    by_cases h : k.val < es.length
    · rw [leftAt_append_of_lt ls h, List.getD_eq_getElem _ _ h]
      rfl
    · rw [leftAt_append_of_le ls (Nat.not_lt.1 h), List.getD_eq_default _ _ (Nat.not_lt.1 h), ih]

end Camview
