/-
Two roundings of C in exact arithmetic: `round`, to the nearest integer with halves
away from zero, and `(x / s) * s`, to a multiple of `s` toward zero.

`roundAway_le_iff` and `le_roundAway_iff` say which numbers are rounded below and
above an integer; that rounding is monotone follows. For fractions the same is said
in integers (`roundAway_div_le_iff`, `le_roundAway_div_iff`).
-/
import Mathlib.Algebra.Order.Floor.Ring
import Mathlib.Data.Rat.Floor
import Mathlib.Tactic.Linarith

namespace Camview

/-! ## To an integer -/

section Away

variable {K : Type} [Field K] [LinearOrder K] [IsStrictOrderedRing K] [FloorRing K]

/-- The nearest integer, of two the one farther from zero. -/
def roundAway (x : K) : Int := if 0 ≤ x then ⌊x + 1 / 2⌋ else ⌈x - 1 / 2⌉

variable {x y : K} {m : Int}

/-- A half is rounded down where that is away from zero. -/
theorem roundAway_le_iff : roundAway x ≤ m ↔ x < m + 1 / 2 ∨ x = m + 1 / 2 ∧ m < 0 := by
  unfold roundAway
  split
  · next h =>
    rw [← Int.lt_add_one_iff, Int.floor_lt]
    push_cast
    constructor
    · intro hlt
      left
      linarith
    · rintro (hlt | ⟨rfl, hm⟩)
      · linarith
      · have : (m : K) + 1 ≤ 0 := by exact_mod_cast hm
        linarith
  · next h =>
    rw [Int.ceil_le]
    constructor
    · intro hle
      rcases lt_or_eq_of_le (show x ≤ m + 1 / 2 by linarith) with hlt | rfl
      · exact .inl hlt
      · refine .inr ⟨rfl, ?_⟩
        by_contra hm
        have : (0 : K) ≤ m := by exact_mod_cast not_lt.1 hm
        linarith
    · rintro (hlt | ⟨rfl, -⟩)
      · linarith
      · linarith

/-- A half is rounded up where that is away from zero. -/
theorem le_roundAway_iff : m ≤ roundAway x ↔ m - 1 / 2 < x ∨ x = m - 1 / 2 ∧ 0 < m := by
  have hlt : m ≤ roundAway x ↔ ¬ roundAway x ≤ m - 1 := by omega
  rw [hlt, roundAway_le_iff]
  push_cast
  constructor
  · intro h
    rcases lt_trichotomy (m - 1 / 2 : K) x with hx | hx | hx
    · exact .inl hx
    · refine .inr ⟨hx.symm, ?_⟩
      by_contra hm
      exact h (.inr ⟨by linarith, by omega⟩)
    · exact absurd (.inl (by linarith)) h
  · rintro (hx | ⟨rfl, hm⟩) (hy | ⟨hy, hm'⟩)
    · linarith
    · linarith
    · linarith
    · omega

theorem roundAway_mono (h : x ≤ y) : roundAway x ≤ roundAway y := by
  rw [roundAway_le_iff]
  rcases roundAway_le_iff.1 (le_refl (roundAway y)) with hy | ⟨hy, hm⟩
  · exact .inl (lt_of_le_of_lt h hy)
  · rcases lt_or_eq_of_le (hy ▸ h) with hx | hx
    · exact .inl hx
    · exact .inr ⟨hx, hm⟩

/-- A fraction compared with a half in integers. -/
theorem div_cmp_half {a n k : Int} (hn : 0 < n) :
    ((a : K) / n < k / 2 ↔ 2 * a < k * n) ∧ ((a : K) / n = k / 2 ↔ 2 * a = k * n) ∧
      ((k : K) / 2 < a / n ↔ k * n < 2 * a) := by
  have hn' : (0 : K) < n := by exact_mod_cast hn
  have h2 : (0 : K) < 2 := by norm_num
  refine ⟨?_, ?_, ?_⟩
  · rw [div_lt_div_iff₀ hn' h2, mul_comm]
    exact_mod_cast Iff.rfl
  · rw [div_eq_div_iff hn'.ne' h2.ne', mul_comm]
    exact_mod_cast Iff.rfl
  · rw [div_lt_div_iff₀ h2 hn', mul_comm (a : K)]
    exact_mod_cast Iff.rfl

theorem roundAway_div_le_iff {a n : Int} (hn : 0 < n) :
    roundAway ((a : K) / n) ≤ m ↔ 2 * a < (2 * m + 1) * n ∨ 2 * a = (2 * m + 1) * n ∧ m < 0 := by
  obtain ⟨hlt, heq, -⟩ := div_cmp_half (K := K) (a := a) (k := 2 * m + 1) hn
  rw [roundAway_le_iff, show (m : K) + 1 / 2 = (2 * m + 1 : Int) / 2 by push_cast; ring, hlt, heq]

theorem le_roundAway_div_iff {a n : Int} (hn : 0 < n) :
    m ≤ roundAway ((a : K) / n) ↔ (2 * m - 1) * n < 2 * a ∨ 2 * a = (2 * m - 1) * n ∧ 0 < m := by
  obtain ⟨-, heq, hgt⟩ := div_cmp_half (K := K) (a := a) (k := 2 * m - 1) hn
  rw [le_roundAway_iff, show (m : K) - 1 / 2 = (2 * m - 1 : Int) / 2 by push_cast; ring, hgt, heq]

end Away

/-! ## To a multiple -/

section Multiple

variable {s x y : Int}

/-- Of two multiples of `s`, one that is less than `s` beyond the other is not beyond it. -/
theorem le_of_dvd_of_lt_add (hx : s ∣ x) (hy : s ∣ y) (h : x < y + s) : x ≤ y := by
  obtain ⟨k, rfl⟩ := hx
  obtain ⟨l, rfl⟩ := hy
  by_cases hs : 0 < s
  · have hkl : s * k < s * (l + 1) := by rwa [mul_add, mul_one]
    exact mul_le_mul_of_nonneg_left (Int.lt_add_one_iff.1 (lt_of_mul_lt_mul_left hkl hs.le)) hs.le
  · omega

/-- `x` as a multiple of `s`, rounded toward zero. -/
def towardZero (s x : Int) : Int := x.tdiv s * s

theorem dvd_towardZero (s x : Int) : s ∣ towardZero s x := Int.dvd_mul_left ..

theorem towardZero_add_tmod (s x : Int) : towardZero s x + x.tmod s = x := by
  rw [towardZero, mul_comm]
  exact Int.mul_tdiv_add_tmod x s

theorem towardZero_of_nonneg (hs : 0 < s) (hx : 0 ≤ x) :
    0 ≤ towardZero s x ∧ towardZero s x ≤ x ∧ x < towardZero s x + s := by
  have hsum := towardZero_add_tmod s x
  have h0 := Int.tmod_nonneg s hx
  have hlt := Int.tmod_lt_of_pos x hs
  have hq : 0 ≤ x.tdiv s := Int.tdiv_nonneg hx hs.le
  exact ⟨mul_nonneg hq hs.le, by omega, by omega⟩

theorem towardZero_neg (s x : Int) : towardZero s (-x) = -towardZero s x := by
  rw [towardZero, Int.neg_tdiv, neg_mul]
  rfl

theorem towardZero_of_nonpos (hs : 0 < s) (hx : x ≤ 0) :
    x ≤ towardZero s x ∧ towardZero s x ≤ 0 ∧ towardZero s x < x + s := by
  have h := towardZero_of_nonneg hs (x := -x) (by omega)
  rw [towardZero_neg] at h
  omega

variable {a b : Int}

/-- A multiple that is not above `x` is not above `x` rounded. -/
theorem le_towardZero (hs : 0 < s) (ha : s ∣ a) (h : a ≤ x) : a ≤ towardZero s x := by
  rcases le_total 0 x with hx | hx
  · have hr := towardZero_of_nonneg hs hx
    exact le_of_dvd_of_lt_add ha (dvd_towardZero s x) (by omega)
  · have hr := towardZero_of_nonpos hs hx
    omega

/-- Rounding up a negative number keeps it below a bound if a multiple is between. -/
theorem towardZero_le_iff (hs : 0 < s) (h : x ≤ b) : towardZero s x ≤ b ↔ 0 ≤ b ∨ x ≤ b / s * s := by
  have hfloor : b / s * s ≤ b ∧ b < b / s * s + s := by
    have h1 := Int.emod_add_mul_ediv b s
    have h2 := Int.emod_nonneg b hs.ne'
    have h3 := Int.emod_lt_of_pos b hs
    rw [mul_comm] at h1
    omega
  rcases le_total 0 x with hx | hx
  · have hr := towardZero_of_nonneg hs hx
    exact iff_of_true (by omega) (.inl (by omega))
  · have hr := towardZero_of_nonpos hs hx
    constructor
    · intro hle
      have := le_of_dvd_of_lt_add (dvd_towardZero s x) (Int.dvd_mul_left (b / s) s) (by omega)
      right
      omega
    · intro hor
      rcases hor with h0 | hle
      · omega
      · have := le_of_dvd_of_lt_add (dvd_towardZero s x) (Int.dvd_mul_left (b / s) s) (by omega)
        omega

/-- The numbers up to a multiple `b` that are rounded to it. -/
theorem towardZero_eq_iff (hs : 0 < s) (h : x ≤ b) :
    towardZero s x = b ↔ s ∣ b ∧ (if 0 < b then b else b - s + 1) ≤ x := by
  constructor
  · intro he
    refine ⟨he ▸ dvd_towardZero s x, ?_⟩
    rcases le_total 0 x with hx | hx
    · have hr := towardZero_of_nonneg hs hx
      split <;> omega
    · have hr := towardZero_of_nonpos hs hx
      split <;> omega
  · intro hand
    obtain ⟨hdvd, hle⟩ := hand
    split at hle
    · have hr := towardZero_of_nonneg hs (x := x) (by omega)
      have := le_of_dvd_of_lt_add hdvd (dvd_towardZero s x) (by omega)
      omega
    · have hr := towardZero_of_nonpos hs (x := x) (by omega)
      have h1 := le_of_dvd_of_lt_add hdvd (dvd_towardZero s x) (by omega)
      have h2 := le_of_dvd_of_lt_add (dvd_towardZero s x) hdvd (by omega)
      omega

/-- When a number between `a` and `b` is rounded to `b`, or to whole steps from `a`
that are not beyond `b`. -/
theorem towardZero_steps_iff (hs : 0 < s) (ha : a ≤ x) (hb : x ≤ b) :
    (a ≤ towardZero s x ∧ towardZero s x ≤ b ∧ (towardZero s x = b ∨ s ∣ towardZero s x - a)) ↔
      s ∣ a ∧ (0 ≤ b ∨ x ≤ b / s * s) ∨ s ∣ b ∧ (if 0 < b then b else b - s + 1) ≤ x := by
  rw [← towardZero_eq_iff hs hb, ← towardZero_le_iff hs hb]
  constructor
  · intro h
    obtain ⟨-, hle, heq | hdvd⟩ := h
    · exact .inr heq
    · exact .inl ⟨(dvd_sub_right (dvd_towardZero s x)).1 hdvd, hle⟩
  · intro h
    rcases h with ⟨hdvd, hle⟩ | heq
    · exact ⟨le_towardZero hs hdvd ha, hle, .inr (dvd_sub (dvd_towardZero s x) hdvd)⟩
    · exact ⟨by omega, by omega, .inl heq⟩

end Multiple

end Camview
