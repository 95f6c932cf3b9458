/-
Canonical Huffman codes. `num j` is the number of codes of `j + 1` bits; the codes
are assigned in order of length, each the one before it plus one, with zeros
appended where the length grows (`codes`).

The first code of a length follows from the counts alone (`firstCode`), and a bit
string is decoded by comparing its prefixes with the codes of each length
(`isLeast_decode`). Codes fit in their length when the counts satisfy Kraft's
inequality.
-/
import Mathlib.Algebra.BigOperators.Field
import Mathlib.Algebra.Order.Field.Rat
import Mathlib.Order.Bounds.Basic
import Mathlib.Tactic.FieldSimp
import Mathlib.Tactic.Positivity
import Mathlib.Tactic.Ring

namespace Camview.Canonical

/-! ## Sizes and codes -/

/-- The number of codes of at most `j` bits. -/
def before (num : Nat → Nat) : Nat → Nat
  | 0 => 0
  | j + 1 => before num j + num j

/-- The first code of `j + 1` bits. -/
def firstCode (num : Nat → Nat) : Nat → Nat
  | 0 => 0
  | j + 1 => (firstCode num j + num j) * 2

/-- The lengths of the codes of `j + 1` bits and on, `n` lengths in all. -/
def sizes (num : Nat → Nat) (j : Nat) : Nat → List Nat
  | 0 => []
  | n + 1 => List.replicate (num j) (j + 1) ++ sizes num (j + 1) n

/-- The codes of these lengths, when the next one is `code` in `size` bits. -/
def codesFrom (code size : Nat) : List Nat → List Nat
  | [] => []
  | s :: rest => code <<< (s - size) :: codesFrom (code <<< (s - size) + 1) s rest

/-- The codes of these lengths. -/
def codes (lengths : List Nat) : List Nat := codesFrom 0 1 lengths

variable {num : Nat → Nat}

theorem before_mono {i j : Nat} (h : i ≤ j) : before num i ≤ before num j := by
  induction h with
  | refl => exact Nat.le_refl _
  | step _ ih => exact ih.trans (Nat.le_add_right _ _)

theorem before_congr {num num' : Nat → Nat} {n : Nat} (h : ∀ j < n, num j = num' j) : before num n = before num' n := by
  induction n with
  | zero => rfl
  | succ n ih => rw [before, before, ih fun j hj => h j (by omega), h n (Nat.lt_succ_self n)]

theorem firstCode_congr {num num' : Nat → Nat} {n : Nat} (h : ∀ j < n, num j = num' j) :
    firstCode num n = firstCode num' n := by
  induction n with
  | zero => rfl
  | succ n ih => rw [firstCode, firstCode, ih fun j hj => h j (by omega), h n (Nat.lt_succ_self n)]

theorem length_sizes (j n : Nat) : before num j + (sizes num j n).length = before num (j + n) := by
  induction n generalizing j with
  | zero => rfl
  | succ n ih =>
    rw [sizes, List.length_append, List.length_replicate, ← Nat.add_assoc, show j + (n + 1) = j + 1 + n by omega, ← ih]
    rfl

/-- Codes of one length follow each other. -/
theorem codesFrom_replicate (code size s m : Nat) (rest : List Nat) :
    codesFrom code size (List.replicate (m + 1) s ++ rest) =
      List.range' (code <<< (s - size)) (m + 1) ++ codesFrom (code <<< (s - size) + (m + 1)) s rest := by
  induction m generalizing code size with
  | zero => rfl
  | succ m ih =>
    rw [List.replicate_succ, List.cons_append, codesFrom, ih, Nat.sub_self, Nat.shiftLeft_zero, Nat.add_right_comm]
    rfl

/-- The codes of each length are the first one and those that follow it. -/
theorem codesFrom_sizes {code size j : Nat} (hsize : size ≤ j + 1) (hcode : code <<< (j + 1 - size) = firstCode num j)
    (n : Nat) :
    codesFrom code size (sizes num j n) =
      (List.range' j n).flatMap fun i => List.range' (firstCode num i) (num i) := by
  induction n generalizing code size j with
  | zero => rfl
  | succ n ih =>
    rw [List.range'_succ, List.flatMap_cons, sizes]
    cases hm : num j with
    | zero =>
      refine ih (by omega) ?_
      rw [show j + 1 + 1 - size = j + 1 - size + 1 by omega, Nat.shiftLeft_succ, hcode, firstCode, hm]
      omega
    | succ m =>
      rw [codesFrom_replicate, hcode]
      congr 1
      refine ih (by omega) ?_
      rw [show j + 1 + 1 - (j + 1) = 1 by omega, Nat.shiftLeft_eq, firstCode, hm]

theorem codes_sizes (n : Nat) :
    codes (sizes num 0 n) = (List.range n).flatMap fun i => List.range' (firstCode num i) (num i) := by
  rw [codes, codesFrom_sizes (Nat.le_refl 1) rfl, List.range_eq_range']

/-! ## A symbol's code -/

/-- Symbol `s` has a code of `j + 1` bits. -/
structure HasLength (num : Nat → Nat) (s j : Nat) : Prop where
  le : before num j ≤ s
  lt : s < before num (j + 1)

theorem HasLength.sub_lt {s j : Nat} (h : HasLength num s j) : s - before num j < num j := by
  have hle := h.le
  have hlt : s < before num j + num j := h.lt
  omega

theorem exists_hasLength {s n : Nat} (h : s < before num n) : ∃ j < n, HasLength num s j := by
  induction n with
  | zero => exact absurd h (Nat.not_lt_zero s)
  | succ n ih =>
    by_cases hs : s < before num n
    · obtain ⟨j, hj, hlen⟩ := ih hs
      exact ⟨j, by omega, hlen⟩
    · exact ⟨n, Nat.lt_succ_self n, Nat.not_lt.1 hs, h⟩

/-- Entry `s` of blocks of `num i` entries each is in the block of its length. -/
theorem flatMap_getElem? {α : Type} {f : Nat → List α} (hf : ∀ i, (f i).length = num i) {n j s : Nat} (hj : j < n)
    (h : HasLength num s j) : ((List.range n).flatMap f)[s]? = (f j)[s - before num j]? := by
  have hlen (n : Nat) : ((List.range n).flatMap f).length = before num n := by
    induction n with
    | zero => rfl
    | succ n ih => rw [List.range_succ, List.flatMap_append, List.length_append, ih, List.flatMap_singleton, hf, before]
  induction n with
  | zero => exact absurd hj (Nat.not_lt_zero j)
  | succ n ih =>
    rw [List.range_succ, List.flatMap_append, List.flatMap_singleton]
    by_cases e : j = n
    · subst e
      rw [List.getElem?_append_right (by rw [hlen]; exact h.le), hlen]
    · have hlt : s < before num n := Nat.lt_of_lt_of_le h.lt (before_mono (by omega))
      rw [List.getElem?_append_left (by rw [hlen]; exact hlt)]
      exact ih (by omega)

theorem sizes_eq_flatMap (j n : Nat) :
    sizes num j n = (List.range' j n).flatMap fun i => List.replicate (num i) (i + 1) := by
  induction n generalizing j with
  | zero => rfl
  | succ n ih => rw [sizes, ih, List.range'_succ, List.flatMap_cons]

theorem sizes_getElem? {n j s : Nat} (hj : j < n) (h : HasLength num s j) : (sizes num 0 n)[s]? = some (j + 1) := by
  have hlt := h.sub_lt
  rw [sizes_eq_flatMap, ← List.range_eq_range', flatMap_getElem? (fun i => List.length_replicate) hj h,
    List.getElem?_replicate, if_pos hlt]

/-- The codes of `j + 1` bits count up from the first one. -/
theorem codes_getElem? {n j s : Nat} (hj : j < n) (h : HasLength num s j) :
    (codes (sizes num 0 n))[s]? = some (firstCode num j + (s - before num j)) := by
  have hlt := h.sub_lt
  rw [codes_sizes, flatMap_getElem? (fun i => List.length_range') hj h, List.getElem?_range' hlt, Nat.one_mul]

/-! ## Codes and lengths -/

/-- The codes of `i + 1` bits, and those after them, are below the first code of a
greater length, zeros appended. -/
theorem pow_mul_le_firstCode {i j : Nat} (h : i < j) : (firstCode num i + num i) * 2 ^ (j - i) ≤ firstCode num j := by
  induction j, h using Nat.le_induction with
  | base => rw [firstCode, Nat.succ_eq_add_one, Nat.add_sub_cancel_left, Nat.pow_one]
  | succ j h ih =>
    rw [firstCode, show j + 1 - i = j - i + 1 by omega, Nat.pow_succ, ← Nat.mul_assoc]
    exact Nat.mul_le_mul_right 2 (ih.trans (Nat.le_add_right _ _))

/-- Kraft's sum of the first `n` lengths, over `2 ^ n`. -/
def kraftSum (num : Nat → Nat) (n : Nat) : Nat := ∑ i ∈ Finset.range n, num i * 2 ^ (n - (i + 1))

theorem kraftSum_succ (n : Nat) : kraftSum num (n + 1) = 2 * kraftSum num n + num n := by
  unfold kraftSum
  rw [Finset.sum_range_succ, Nat.sub_self, Nat.pow_zero, Nat.mul_one, Finset.mul_sum]
  congr 1
  refine Finset.sum_congr rfl fun i hi => ?_
  rw [show n + 1 - (i + 1) = n - (i + 1) + 1 by have := Finset.mem_range.1 hi; omega, Nat.pow_succ]
  ring

theorem before_eq_sum (n : Nat) : before num n = ∑ i ∈ Finset.range n, num i := by
  induction n with
  | zero => rfl
  | succ n ih => rw [before, ih, Finset.sum_range_succ]

/-- Kraft's inequality. -/
theorem kraftSum_le_iff (n : Nat) :
    kraftSum num n ≤ 2 ^ n ↔ ∑ i ∈ Finset.range n, (num i : ℚ) / 2 ^ (i + 1) ≤ 1 := by
  have hcast : (kraftSum num n : ℚ) = (∑ i ∈ Finset.range n, (num i : ℚ) / 2 ^ (i + 1)) * 2 ^ n := by
    induction n with
    | zero => simp [kraftSum]
    | succ n ih =>
      rw [kraftSum_succ, Finset.sum_range_succ]
      push_cast
      rw [ih]
      field_simp
      ring
  rw [← Nat.cast_le (α := ℚ), hcast]
  push_cast
  exact mul_le_iff_le_one_left (by positivity)

theorem firstCode_add (j : Nat) : firstCode num j + num j = kraftSum num (j + 1) := by
  induction j with
  | zero =>
    rw [kraftSum_succ]
    rfl
  | succ j ih => rw [kraftSum_succ, firstCode, ih, Nat.mul_comm]

/-- Under Kraft's inequality the codes of a length fit in it. -/
theorem firstCode_add_le {n j : Nat} (hkraft : kraftSum num n ≤ 2 ^ n) (hj : j < n) :
    firstCode num j + num j ≤ 2 ^ (j + 1) := by
  rw [firstCode_add]
  induction n with
  | zero => exact absurd hj (Nat.not_lt_zero j)
  | succ n ih =>
    by_cases e : j = n
    · rw [e]
      exact hkraft
    · rw [kraftSum_succ, Nat.pow_succ] at hkraft
      exact ih (by omega) (by omega)

/-- So does the first code of a length, when a code of it or of a greater length
is there. -/
theorem firstCode_lt {n j l : Nat} (hkraft : kraftSum num n ≤ 2 ^ n) (hl : l < n) (hnum : num l ≠ 0) (hj : j ≤ l) :
    firstCode num j < 2 ^ (j + 1) := by
  have hfit := firstCode_add_le hkraft hl
  rcases Nat.lt_or_eq_of_le hj with hlt | rfl
  · have hle : (firstCode num j + num j) * 2 ^ (l - j) ≤ firstCode num l := pow_mul_le_firstCode hlt
    have hpow : (2 : Nat) ^ (l + 1) = 2 ^ (j + 1) * 2 ^ (l - j) := by
      rw [← Nat.pow_add]
      congr 1
      omega
    have hmul : firstCode num j * 2 ^ (l - j) < 2 ^ (j + 1) * 2 ^ (l - j) := by
      rw [← hpow]
      have := Nat.mul_le_mul_right (2 ^ (l - j)) (Nat.le_add_right (firstCode num j) (num j))
      omega
    exact Nat.lt_of_mul_lt_mul_right hmul
  · omega

/-! ## Decoding -/

/-- The number bits stand for, the first one highest. -/
def value (bits : List Bool) : Nat := bits.foldl (fun v b => 2 * v + b.toNat) 0

theorem value_append (as bs : List Bool) : value (as ++ bs) = value as * 2 ^ bs.length + value bs := by
  have fold (bs : List Bool) (v : Nat) :
      bs.foldl (fun v b => 2 * v + b.toNat) v = v * 2 ^ bs.length + value bs := by
    induction bs using List.reverseRecOn with
    | nil => rw [List.length_nil, Nat.pow_zero, Nat.mul_one]; rfl
    | append_singleton bs b ih =>
      rw [List.foldl_append, ih, show value (bs ++ [b]) = 2 * value bs + b.toNat from List.foldl_append,
        List.length_append]
      show 2 * (v * 2 ^ bs.length + value bs) + b.toNat = v * 2 ^ (bs.length + 1) + (2 * value bs + b.toNat)
      ring
  rw [value, List.foldl_append, fold]
  rfl

theorem value_lt (bits : List Bool) : value bits < 2 ^ bits.length := by
  induction bits using List.reverseRecOn with
  | nil => exact Nat.one_pos
  | append_singleton bits b ih =>
    rw [value_append, List.length_append]
    have hb : value [b] < 2 := by cases b <;> decide
    rw [List.length_singleton, Nat.pow_one, Nat.pow_succ]
    omega

theorem value_take {bits : List Bool} {k n : Nat} (hk : k ≤ n) (hn : n ≤ bits.length) :
    value (bits.take k) = value (bits.take n) / 2 ^ (n - k) := by
  have hsplit : bits.take n = bits.take k ++ (bits.take n).drop k := by
    conv_lhs => rw [← List.take_append_drop k (bits.take n)]
    rw [List.take_take, Nat.min_eq_left hk]
  have hlen : ((bits.take n).drop k).length = n - k := by
    rw [List.length_drop, List.length_take, Nat.min_eq_left hn]
  have hlt := value_lt ((bits.take n).drop k)
  rw [hlen] at hlt
  rw [hsplit, value_append, hlen, Nat.mul_comm, Nat.mul_add_div (Nat.two_pow_pos _), Nat.div_eq_of_lt hlt, Nat.add_zero]

/-- The length of a code at the start of the bits is the least one at which they
are below the end of the codes of this length. -/
theorem isLeast_decode {bits : List Bool} {j k : Nat} (hk : k < num j) (hlen : j + 1 ≤ bits.length)
    (hbits : value (bits.take (j + 1)) = firstCode num j + k) :
    IsLeast {i | value (bits.take (i + 1)) < firstCode num i + num i} j := by
  refine ⟨?_, ?_⟩
  · show value (bits.take (j + 1)) < _
    omega
  · intro i hi
    by_contra hlt
    have hij : i < j := Nat.not_le.1 hlt
    have hi' : value (bits.take (i + 1)) < firstCode num i + num i := hi
    rw [value_take (Nat.succ_le_succ hij.le) hlen, hbits, show j + 1 - (i + 1) = j - i by omega,
      Nat.div_lt_iff_lt_mul (Nat.two_pow_pos _)] at hi'
    have hle : (firstCode num i + num i) * 2 ^ (j - i) ≤ firstCode num j := pow_mul_le_firstCode hij
    omega

end Camview.Canonical
