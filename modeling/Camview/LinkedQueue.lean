/-
A queue as a singly linked list in a heap, with a pointer to its first cell and
one to its last. `IsQueue` says which values it holds and where; appending a
fresh cell behind the last and taking the first one keep it, and so does any
change of the heap away from its cells.
-/
import Mathlib.Data.List.Nodup
import Mathlib.Logic.Function.Basic

namespace Camview

/-- An allocated cell: its contents and its `next`, `none` for a null pointer. -/
structure Cell (α : Type) where
  val : α
  next : Option Nat

/-- The allocated cells by address. -/
abbrev Heap (α : Type) := Nat → Option (Cell α)

namespace LinkedQueue

variable {α : Type}

/-- The cells `l` hang one behind the other from the pointer `p` on, the last
with no next. -/
def Chain (h : Heap α) : Option Nat → List (Nat × α) → Prop
  | p, [] => p = none
  | p, (a, x) :: l => p = some a ∧ ∃ q, h a = some ⟨x, q⟩ ∧ Chain h q l

/-- The queue from `first` to `last` is made of the cells `l`. -/
structure IsQueue (h : Heap α) (first last : Option Nat) (l : List (Nat × α)) : Prop where
  chain : Chain h first l
  last : last = l.getLast?.map Prod.fst
  nodup : (l.map Prod.fst).Nodup

theorem Chain.congr {h h' : Heap α} {p : Option Nat} {l : List (Nat × α)} (hc : Chain h p l)
    (heq : ∀ a ∈ l.map Prod.fst, h' a = h a) : Chain h' p l := by
  induction l generalizing p with
  | nil => exact hc
  | cons c l ih =>
    obtain ⟨a, x⟩ := c
    obtain ⟨hp, q, ha, hl⟩ := hc
    rw [List.map_cons, List.forall_mem_cons] at heq
    exact ⟨hp, q, heq.1.trans ha, ih hl heq.2⟩

/-- Every cell of a chain is allocated and holds its value. -/
theorem Chain.mem {h : Heap α} {p : Option Nat} {l : List (Nat × α)} (hc : Chain h p l) {c : Nat × α} (hm : c ∈ l) :
    ∃ q, h c.1 = some ⟨c.2, q⟩ := by
  induction l generalizing p with
  | nil => cases hm
  | cons d l ih =>
    obtain ⟨hp, q, ha, hl⟩ := hc
    rcases List.mem_cons.1 hm with rfl | hm
    · exact ⟨q, ha⟩
    · exact ih hl hm

/-- The end of a chain is a chain. -/
theorem Chain.of_append {h : Heap α} {p : Option Nat} {l l' : List (Nat × α)} (hc : Chain h p (l ++ l')) :
    ∃ q, Chain h q l' := by
  induction l generalizing p with
  | nil => exact ⟨p, hc⟩
  | cons c l ih =>
    obtain ⟨-, q, -, hl⟩ := hc
    exact ih hl

/-- The last cell points nowhere; a cell hung behind it ends the chain. -/
theorem Chain.concat {h : Heap α} {p : Option Nat} {l : List (Nat × α)} {a b : Nat} {x y : α}
    (hc : Chain h p (l ++ [(a, x)])) (ha : a ∉ l.map Prod.fst) (hb : b ∉ (l ++ [(a, x)]).map Prod.fst)
    (hy : h b = some ⟨y, none⟩) :
    Chain (Function.update h a (some ⟨x, some b⟩)) p (l ++ [(a, x), (b, y)]) := by
  induction l generalizing p with
  | nil =>
    have hne : b ≠ a := fun e => hb (by simp [e])
    refine ⟨hc.1, some b, Function.update_self .., rfl, none, ?_, rfl⟩
    rw [Function.update_of_ne hne]
    exact hy
  | cons c l ih =>
    obtain ⟨d, z⟩ := c
    obtain ⟨hp, q, hd, hl⟩ := hc
    rw [List.map_cons, List.mem_cons, not_or] at ha
    rw [List.cons_append, List.map_cons, List.mem_cons, not_or] at hb
    refine ⟨hp, q, ?_, ih hl ha.2 hb.2⟩
    rw [Function.update_of_ne (Ne.symm ha.1)]
    exact hd

namespace IsQueue

variable {h : Heap α} {first last : Option Nat} {l : List (Nat × α)}

theorem empty (h : Heap α) : IsQueue h none none [] := ⟨rfl, rfl, .nil⟩

/-- A change of the heap away from the queue's cells. -/
theorem congr {h' : Heap α} (hq : IsQueue h first last l) (heq : ∀ a ∈ l.map Prod.fst, h' a = h a) :
    IsQueue h' first last l :=
  ⟨hq.chain.congr heq, hq.last, hq.nodup⟩

/-- Both pointers are null, or neither is. -/
theorem first_eq_none (hq : IsQueue h first last l) : first = none ↔ l = [] := by
  cases l with
  | nil => exact iff_of_true hq.chain rfl
  | cons c l =>
    obtain ⟨hp, -⟩ := hq.chain
    exact iff_of_false (by simp [hp]) (by simp)

theorem last_eq_none (hq : IsQueue h first last l) : last = none ↔ l = [] := by
  rw [hq.last, Option.map_eq_none_iff, List.getLast?_eq_none_iff]

/-- The last cell points nowhere. -/
theorem last_next {a : Nat} (hq : IsQueue h first (some a) l) : ∃ c, h a = some c ∧ c.next = none := by
  obtain ⟨⟨a', x⟩, hlast, rfl⟩ := Option.map_eq_some_iff.1 hq.last.symm
  obtain ⟨init, rfl⟩ := List.getLast?_eq_some_iff.1 hlast
  obtain ⟨p, -, q, hx, hnil⟩ := hq.chain.of_append
  exact ⟨⟨x, q⟩, hx, hnil⟩

/-- The first cell and the queue behind it. -/
theorem dequeue {a : Nat} (hq : IsQueue h (some a) last l) :
    ∃ x q rest, l = (a, x) :: rest ∧ h a = some ⟨x, q⟩ ∧ a ∉ rest.map Prod.fst ∧
      IsQueue h q (if q = none then none else last) rest := by
  cases l with
  | nil => exact absurd hq.chain (by simp [Chain])
  | cons c rest =>
    obtain ⟨b, x⟩ := c
    obtain ⟨hp, q, hb, hc⟩ := hq.chain
    obtain rfl : a = b := Option.some.inj hp
    have hn := List.nodup_cons.1 hq.nodup
    refine ⟨x, q, rest, rfl, hb, hn.1, hc, ?_, hn.2⟩
    cases rest with
    | nil =>
      rw [if_pos (show q = none from hc)]
      rfl
    | cons d rest =>
      rw [if_neg (by simp [hc.1]), hq.last]
      rfl

/-- A fresh cell hung behind the last one. -/
theorem enqueue {a b : Nat} {y : α} (hq : IsQueue h first (some a) l) (hb : b ∉ l.map Prod.fst)
    (hy : h b = some ⟨y, none⟩) :
    ∃ x q, h a = some ⟨x, q⟩ ∧
      IsQueue (Function.update h a (some ⟨x, some b⟩)) first (some b) (l ++ [(b, y)]) := by
  obtain ⟨⟨a', x⟩, hlast, rfl⟩ := Option.map_eq_some_iff.1 hq.last.symm
  obtain ⟨init, rfl⟩ := List.getLast?_eq_some_iff.1 hlast
  obtain ⟨q, hx⟩ := hq.chain.mem (List.mem_append_right init (List.mem_singleton_self (a', x)))
  have hn := hq.nodup
  rw [List.map_append, List.map_singleton, List.nodup_append] at hn
  have ha : a' ∉ init.map Prod.fst := fun hm => hn.2.2 a' hm a' (List.mem_singleton_self _) rfl
  refine ⟨x, q, hx, ?_, ?_, ?_⟩
  · rw [List.append_assoc]
    exact hq.chain.concat ha hb hy
  · rw [List.getLast?_concat]
    rfl
  · rw [List.map_append, List.map_singleton]
    exact hq.nodup.append (List.nodup_singleton b) (by simpa using hb)

/-- The first cell of an empty queue. -/
theorem enqueue_empty {last : Option Nat} {b : Nat} {y : α} (hq : IsQueue h first last l) (hl : last = none)
    (hy : h b = some ⟨y, none⟩) : IsQueue h (some b) (some b) (l ++ [(b, y)]) := by
  rw [hq.last_eq_none.1 hl]
  exact ⟨⟨rfl, none, hy, rfl⟩, rfl, List.nodup_singleton b⟩

end IsQueue

end LinkedQueue

end Camview
