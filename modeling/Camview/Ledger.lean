/-
A ledger of resources: what has been obtained and not released yet, and what was
released without being held. `held` is a multiset, so nothing need be assumed on
what is handed out; where nothing held is handed out again, it is a set.
-/
import Mathlib.Data.Multiset.AddSub

namespace Camview

/-- The resources held, and those released while they were not. -/
structure Ledger (ρ : Type) where
  held : Multiset ρ
  bad : List ρ

namespace Ledger

variable {ρ : Type} {L : Ledger ρ} {r : ρ} {rs : List ρ}

def empty : Ledger ρ := ⟨0, []⟩

def obtain (rs : List ρ) (L : Ledger ρ) : Ledger ρ := { L with held := L.held + rs }

@[simp] theorem obtain_held : (L.obtain rs).held = L.held + rs := rfl

@[simp] theorem obtain_nil : L.obtain [] = L := by simp [Ledger.obtain]

theorem obtain_append (rs' : List ρ) : L.obtain (rs ++ rs') = (L.obtain rs).obtain rs' := by
  unfold Ledger.obtain
  rw [← Multiset.coe_add, Multiset.add_assoc]

variable [DecidableEq ρ]

def release (L : Ledger ρ) (r : ρ) : Ledger ρ where
  held := L.held.erase r
  bad := if r ∈ L.held then L.bad else L.bad ++ [r]

/-- What is released at once leaves nothing. -/
theorem obtain_release : (L.obtain [r]).release r = L := by
  have hheld : (L.obtain [r]).held = r ::ₘ L.held := by
    rw [obtain_held, Multiset.coe_singleton, ← Multiset.singleton_add, Multiset.add_comm]
  unfold release
  rw [hheld, Multiset.erase_cons_head, if_pos (Multiset.mem_cons_self ..)]
  rfl

/-- One after the other. -/
def releaseAll (rs : List ρ) (L : Ledger ρ) : Ledger ρ := rs.foldl release L

@[simp] theorem releaseAll_nil : L.releaseAll [] = L := rfl

@[simp] theorem releaseAll_cons : L.releaseAll (r :: rs) = (L.release r).releaseAll rs := rfl

theorem release_bad : (L.release r).bad = [] ↔ L.bad = [] ∧ r ∈ L.held := by
  unfold release
  by_cases h : r ∈ L.held
  · simp [h]
  · simp [h]

theorem releaseAll_held : (L.releaseAll rs).held = L.held - rs := by
  induction rs generalizing L with
  | nil => simp
  | cons r rs ih =>
    rw [releaseAll_cons, ih, ← Multiset.cons_coe, Multiset.sub_cons]
    rfl

theorem cons_le_iff {m : Multiset ρ} : r ::ₘ (rs : Multiset ρ) ≤ m ↔ r ∈ m ∧ (rs : Multiset ρ) ≤ m.erase r := by
  constructor
  · intro h
    have hr : r ∈ m := Multiset.mem_of_le h (Multiset.mem_cons_self ..)
    rw [← Multiset.cons_erase hr, Multiset.cons_le_cons_iff] at h
    exact ⟨hr, h⟩
  · rintro ⟨hr, h⟩
    rw [← Multiset.cons_erase hr, Multiset.cons_le_cons_iff]
    exact h

/-- A list of releases is in order exactly if the whole of it was held. -/
theorem releaseAll_bad : (L.releaseAll rs).bad = [] ↔ L.bad = [] ∧ (rs : Multiset ρ) ≤ L.held := by
  induction rs generalizing L with
  | nil => simp only [releaseAll_nil, Multiset.coe_nil, Multiset.zero_le, and_true]
  | cons r rs ih =>
    rw [releaseAll_cons, ih, release_bad, ← Multiset.cons_coe, cons_le_iff, and_assoc]
    rfl

/-- What is obtained in between is released, and nothing is left; what else is released
is not held. -/
theorem releaseAll_obtain (hheld : L.held = 0) (rs' : List ρ) :
    ((L.obtain rs).releaseAll (rs ++ rs')).held = 0 ∧
      (((L.obtain rs).releaseAll (rs ++ rs')).bad = [] ↔ L.bad = [] ∧ rs' = []) := by
  rw [releaseAll_held, releaseAll_bad, obtain_held, hheld, Multiset.zero_add, ← Multiset.coe_add]
  refine ⟨?_, and_congr_right fun _ => ?_⟩
  · refine Multiset.le_zero.1 (Multiset.sub_le_iff_le_add.2 ?_)
    rw [Multiset.zero_add]
    exact Multiset.le_add_right ..
  · have h : (rs : Multiset ρ) + rs' ≤ rs + 0 ↔ (rs' : Multiset ρ) ≤ 0 := Multiset.add_le_add_iff_left
    rw [Multiset.add_zero] at h
    rw [h, Multiset.le_zero, Multiset.coe_eq_zero]

end Ledger

end Camview
