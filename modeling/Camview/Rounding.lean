/-
Two idioms of C for rounding up, in exact arithmetic. `(x + m - 1) & ~(m - 1)`
is the least multiple of `m = 2 ^ k` not below `x`. `(x + m) & ~m` is not: it
adds `m` where bit `k` of `x` is set, carrying into the bits above, and leaves
`x` alone where it is clear (`padded`).
-/
import Mathlib.Data.Nat.Bitwise
import Mathlib.Algebra.Order.Ring.Nat
import Mathlib.Tactic.Ring

namespace Camview

/-- Bit `k` of `x`. -/
def bitAt (k x : Nat) : Nat := x / 2 ^ k % 2

/-- What `(x + 2 ^ k) & ~2 ^ k` comes to. -/
def padded (k x : Nat) : Nat := x + 2 ^ k * bitAt k x

/-- What `(x + 2 ^ k - 1) & ~(2 ^ k - 1)` comes to. -/
def ceilTo (k x : Nat) : Nat := (x + (2 ^ k - 1)) / 2 ^ k * 2 ^ k

theorem bitAt_cases (k x : Nat) : bitAt k x = 0 ∨ bitAt k x = 1 := by
  unfold bitAt
  omega

theorem le_padded (k x : Nat) : x ≤ padded k x := Nat.le_add_right _ _

theorem padded_cases (k x : Nat) : padded k x = x ∨ padded k x = x + 2 ^ k := by
  unfold padded
  rcases bitAt_cases k x with h | h
  · rw [h]
    exact .inl rfl
  · rw [h, Nat.mul_one]
    exact .inr rfl

/-- Bit `k` is clear afterwards. -/
theorem bitAt_padded (k x : Nat) : bitAt k (padded k x) = 0 := by
  have hp : 0 < 2 ^ k := Nat.two_pow_pos k
  unfold padded
  rcases bitAt_cases k x with h | h
  · rw [h, Nat.mul_zero, Nat.add_zero, h]
  · rw [h, Nat.mul_one]
    unfold bitAt at h ⊢
    rw [Nat.add_div_right _ hp]
    omega

theorem padded_padded (k x : Nat) : padded k (padded k x) = padded k x := by
  rw [padded, bitAt_padded, Nat.mul_zero, Nat.add_zero]

theorem le_ceilTo (k x : Nat) : x ≤ ceilTo k x := by
  have hp : 0 < 2 ^ k := Nat.two_pow_pos k
  have hd := Nat.div_add_mod (x + (2 ^ k - 1)) (2 ^ k)
  have hm := Nat.mod_lt (x + (2 ^ k - 1)) hp
  unfold ceilTo
  rw [Nat.mul_comm]
  omega

/-! ## On machine words -/

/-- Clearing the bits of a mask takes away what they amount to. -/
theorem toNat_and_not_add_and {w : Nat} (y m : BitVec w) : (y &&& ~~~m).toNat + (y &&& m).toNat = y.toNat := by
  have hz : (y &&& ~~~m) &&& (y &&& m) = 0#w := by
    ext i hi
    simp only [BitVec.getElem_and, BitVec.getElem_not, BitVec.getElem_zero]
    cases m[i] <;> simp
  rw [← BitVec.toNat_add_of_and_eq_zero hz, BitVec.add_eq_or_of_and_eq_zero _ _ hz]
  congr 1
  ext i hi
  simp only [BitVec.getElem_or, BitVec.getElem_and, BitVec.getElem_not]
  cases m[i] <;> simp

/-- `(x + 2 ^ k) & ~2 ^ k` on words of `w` bits. -/
theorem toNat_padded {w : Nat} (x : BitVec w) {k : Nat} (hk : k < w) :
    ((x + BitVec.twoPow w k) &&& ~~~BitVec.twoPow w k).toNat = padded k x.toNat % 2 ^ w := by
  have hy := toNat_and_not_add_and (x + BitVec.twoPow w k) (BitVec.twoPow w k)
  have hand : ((x + BitVec.twoPow w k) &&& BitVec.twoPow w k).toNat =
      2 ^ k * bitAt k (x + BitVec.twoPow w k).toNat := by
    rw [BitVec.toNat_and, BitVec.toNat_twoPow_of_lt hk, Nat.and_two_pow, Nat.toNat_testBit, Nat.mul_comm]
    rfl
  rw [hand, BitVec.toNat_add, BitVec.toNat_twoPow_of_lt hk] at hy
  have hx := x.isLt
  have hp : 0 < 2 ^ k := Nat.two_pow_pos k
  -- In units of `2 ^ k` the word is below an even bound.
  obtain ⟨m, hm⟩ : ∃ m, 2 ^ w = 2 ^ k * (2 * m) := ⟨2 ^ (w - k - 1), by
    rw [← pow_succ', ← pow_add]
    congr 1
    omega⟩
  have hd : x.toNat / 2 ^ k < 2 * m := Nat.div_lt_of_lt_mul (hm ▸ hx)
  have hdiv := Nat.add_div_right x.toNat hp
  unfold padded
  rcases bitAt_cases k x.toNat with h | h
  · have hlt : x.toNat + 2 ^ k < 2 ^ w := by
      rw [hm, Nat.mul_comm, ← Nat.div_lt_iff_lt_mul hp, hdiv]
      unfold bitAt at h
      omega
    rw [Nat.mod_eq_of_lt hlt] at hy
    have hb : bitAt k (x.toNat + 2 ^ k) = 1 := by
      unfold bitAt at h ⊢
      rw [hdiv]
      omega
    rw [hb] at hy
    rw [h, Nat.mul_zero, Nat.add_zero, Nat.mod_eq_of_lt hx]
    omega
  · have hb : bitAt k ((x.toNat + 2 ^ k) % 2 ^ w) = 0 := by
      unfold bitAt at h ⊢
      rw [hm, Nat.mod_mul_right_div_self, hdiv, Nat.mod_mul_right_mod]
      omega
    rw [hb] at hy
    rw [h, Nat.mul_one]
    omega

/-- `(x + 2 ^ k - 1) & ~(2 ^ k - 1)` on words of `w` bits, when the sum does not wrap. -/
theorem toNat_ceilTo {w : Nat} (x m : BitVec w) {k : Nat} (hm : m.toNat = 2 ^ k - 1)
    (h : x.toNat + m.toNat < 2 ^ w) : ((x + m) &&& ~~~m).toNat = ceilTo k x.toNat := by
  have hy := toNat_and_not_add_and (x + m) m
  rw [BitVec.toNat_and (x + m) m, hm, Nat.and_two_pow_sub_one_eq_mod, BitVec.toNat_add, Nat.mod_eq_of_lt h, hm] at hy
  have hd := Nat.div_add_mod (x.toNat + (2 ^ k - 1)) (2 ^ k)
  unfold ceilTo
  rw [Nat.mul_comm]
  omega

/-- Clearing the low bits of a signed word rounds it down. -/
theorem toInt_and_not_mask {w : Nat} (y m : BitVec w) {k : Nat} (hk : k < w) (hm : m.toNat = 2 ^ k - 1) :
    (y &&& ~~~m).toInt = y.toInt / 2 ^ k * 2 ^ k := by
  have hp : 0 < 2 ^ k := Nat.two_pow_pos k
  have hy := toNat_and_not_add_and y m
  rw [BitVec.toNat_and y m, hm, Nat.and_two_pow_sub_one_eq_mod] at hy
  have hd := Nat.div_add_mod y.toNat (2 ^ k)
  have hz : (y &&& ~~~m).toNat = 2 ^ k * (y.toNat / 2 ^ k) := by omega
  -- The sign bit is above the bits that are cleared.
  obtain ⟨n, hn⟩ : ∃ n, 2 ^ w = 2 ^ k * (2 * n) := ⟨2 ^ (w - k - 1), by
    rw [← pow_succ', ← pow_add]
    congr 1
    omega⟩
  have hsign : 2 * (2 ^ k * (y.toNat / 2 ^ k)) < 2 ^ w ↔ 2 * y.toNat < 2 ^ w := by
    rw [hn, show 2 * (2 ^ k * (y.toNat / 2 ^ k)) = 2 ^ k * (2 * (y.toNat / 2 ^ k)) by ring,
      Nat.mul_lt_mul_left hp, Nat.mul_lt_mul_left Nat.two_pos, Nat.div_lt_iff_lt_mul hp]
    rw [show 2 ^ k * (2 * n) = 2 * (n * 2 ^ k) by ring, Nat.mul_lt_mul_left Nat.two_pos]
  rw [BitVec.toInt_eq_toNat_cond, BitVec.toInt_eq_toNat_cond, hz]
  by_cases h : 2 * y.toNat < 2 ^ w
  · rw [if_pos (hsign.2 h), if_pos h]
    push_cast
    ring
  · rw [if_neg (mt hsign.1 h), if_neg h, hn]
    push_cast
    rw [Int.sub_mul_ediv_left _ _ (pow_ne_zero k two_ne_zero)]
    ring

end Camview
