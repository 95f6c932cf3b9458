/-
What one round of `set_huffman_tables` writes to `buffer`, and reads to do so: for
each length the number of shorter codes, the symbols, and for each length its first
code. The loops carry a running sum; `before` and `firstCode` are these sums.
-/
import Camview.Canonical
import Camview.Decode
import Camview.JpegReads

namespace Camview.Hw

open Reader Canonical

variable {mem : Nat → UInt8}

/-- `num[j]` of the table at `off`. -/
def numAt (mem : Nat → UInt8) (off j : Nat) : Nat := (mem (off + j)).toNat

/-- `last` after the counts below `n`. -/
def lastOf (num : Nat → Nat) : Nat → Nat
  | 0 => 0
  | n + 1 => if num n ≠ 0 then n else lastOf num n

theorem sumNum_run (pos n : Nat) : (sumNum pos n).run mem = before (numAt mem pos) n := by
  induction n with
  | zero => rfl
  | succ n ih =>
    rw [sumNum, run_bind, ih]
    rfl

theorem symbols_eq (off : Nat) : symbols mem off = before (numAt mem (off + 1)) 16 := sumNum_run (off + 1) 16

/-- `last` is a length with a code, or 0. -/
theorem num_lastOf (num : Nat → Nat) (n : Nat) : lastOf num n = 0 ∨ lastOf num n < n ∧ num (lastOf num n) ≠ 0 := by
  induction n with
  | zero => exact .inl rfl
  | succ n ih =>
    rw [lastOf]
    split
    · next h => exact .inr ⟨Nat.lt_succ_self n, h⟩
    · exact ih.imp_right fun h => ⟨h.1.trans (Nat.lt_succ_self n), h.2⟩

/-- No length beyond `last` has a code. -/
theorem le_lastOf {num : Nat → Nat} {n j : Nat} (hj : j < n) (hnum : num j ≠ 0) : j ≤ lastOf num n := by
  induction n with
  | zero => exact absurd hj (Nat.not_lt_zero j)
  | succ n ih =>
    rw [lastOf]
    split
    · exact Nat.le_of_lt_succ hj
    · next h =>
      have hne : j ≠ n := by
        rintro rfl
        exact h hnum
      exact ih (by omega)

theorem lastOf_congr {num num' : Nat → Nat} {n : Nat} (h : ∀ j < n, num j = num' j) : lastOf num n = lastOf num' n := by
  induction n with
  | zero => rfl
  | succ n ih => rw [lastOf, lastOf, ih fun j hj => h j (by omega), h n (Nat.lt_succ_self n)]

/-! ## The writes of a round -/

/-- The number of shorter codes, for each length. -/
def countWrites (i : Nat) (num : Nat → Nat) : List (Nat × UInt8) :=
  (List.range 16).map fun j => (i * 64 + 32 + j, UInt8.ofNat (before num j))

/-- The symbols. -/
def symbolWrites (mem : Nat → UInt8) (i off n : Nat) : List (Nat × UInt8) :=
  (List.range n).map fun k => (4 * (256 + 64 * i) + k, mem (off + 16 + k))

/-- The first code of each length, and 0xffff past the last one. -/
def codeWrites (i : Nat) (num : Nat → Nat) : List (Nat × UInt8) :=
  (List.range 16).flatMap fun j =>
    halfWord (i * 32 + j) (if j ≤ lastOf num 16 then UInt16.ofNat (firstCode num j) else 0xffff)

/-- What the loop body of `set_huffman_tables` writes for table `i`, if there is one. -/
def roundWrites (i : Nat) (table : Option Nat) : Reader (List (Nat × UInt8)) :=
  match table with
  | some off => huffmanWrites i off
  | none => pure []

theorem length_codeWrites (i : Nat) (num : Nat → Nat) : (codeWrites i num).length = 32 := by
  unfold codeWrites
  rw [List.length_flatMap]
  simp [halfWord]

/-- The writes of a table's counts depend on nothing else. -/
theorem writes_congr {i : Nat} {num num' : Nat → Nat} (h : ∀ j < 16, num j = num' j) :
    countWrites i num = countWrites i num' ∧ codeWrites i num = codeWrites i num' := by
  unfold countWrites codeWrites
  refine ⟨List.map_congr_left fun j hj => ?_, List.flatMap_congr fun j hj => ?_⟩
  · rw [before_congr fun m hm => h m (hm.trans (List.mem_range.1 hj))]
  · rw [lastOf_congr h, firstCode_congr fun m hm => h m (hm.trans (List.mem_range.1 hj))]

variable (mem) in
theorem countLoop_run (i off n j : Nat) :
    (countLoop i off n j (before (numAt mem off) j) (lastOf (numAt mem off) j)).run mem =
      ((List.range' j n).map (fun j => (i * 64 + 32 + j, UInt8.ofNat (before (numAt mem off) j))),
        before (numAt mem off) (j + n), lastOf (numAt mem off) (j + n)) := by
  induction n generalizing j with
  | zero => rfl
  | succ n ih =>
    have hlast : (if mem (off + j) ≠ 0 then j else lastOf (numAt mem off) j) = lastOf (numAt mem off) (j + 1) := by
      rw [lastOf]
      refine if_congr ?_ rfl rfl
      rw [numAt, Ne, Ne, ← UInt8.toNat_inj]
      rfl
    rw [countLoop, run_byte_bind, run_bind, hlast,
      show before (numAt mem off) j + (mem (off + j)).toNat = before (numAt mem off) (j + 1) from rfl, ih,
      show j + 1 + n = j + (n + 1) by omega]
    rfl

variable (mem) in
theorem codeLoop_run (i off last n j sum : Nat) (hsum : j ≤ last → sum = firstCode (numAt mem off) j) :
    (codeLoop i off last n j sum).run mem =
      (List.range' j n).flatMap fun j =>
        halfWord (i * 32 + j) (if j ≤ last then UInt16.ofNat (firstCode (numAt mem off) j) else 0xffff) := by
  induction n generalizing j sum with
  | zero => rfl
  | succ n ih =>
    rw [codeLoop, List.range'_succ, List.flatMap_cons]
    split
    · next hj =>
      have hnext : j + 1 ≤ last → (sum + (mem (off + j)).toNat) * 2 = firstCode (numAt mem off) (j + 1) := by
        intro _
        rw [hsum hj]
        rfl
      rw [run_byte_bind, run_bind, ih _ _ hnext, hsum hj]
      rfl
    · next hj =>
      rw [run_bind, ih _ _ (fun h => absurd (Nat.le_of_succ_le h) hj)]
      rfl

theorem countLoop_start (mem : Nat → UInt8) (i off : Nat) :
    (countLoop i off 16 0 0 0).run mem =
      (countWrites i (numAt mem off), before (numAt mem off) 16, lastOf (numAt mem off) 16) := by
  have h := countLoop_run mem i off 16 0
  rw [show before (numAt mem off) 0 = 0 from rfl, show lastOf (numAt mem off) 0 = 0 from rfl, Nat.zero_add] at h
  rw [h, countWrites, List.range_eq_range']

theorem codeLoop_start (mem : Nat → UInt8) (i off : Nat) :
    (codeLoop i off (lastOf (numAt mem off) 16) 16 0 0).run mem = codeWrites i (numAt mem off) := by
  have h := codeLoop_run mem i off (lastOf (numAt mem off) 16) 16 0 0 fun _ => rfl
  rw [h, codeWrites, List.range_eq_range']

theorem huffmanWrites_run (i off : Nat) :
    (huffmanWrites i off).run mem =
      countWrites i (numAt mem off) ++ symbolWrites mem i off (before (numAt mem off) 16) ++
        codeWrites i (numAt mem off) := by
  rw [huffmanWrites, run_bind, countLoop_start]
  dsimp only
  rw [run_bind, run_bind, run_mapM, codeLoop_start, run_pure]
  simp only [run_byte_bind, run_pure, symbolWrites]

/-! ## The reads of a round -/

theorem mem_reads_writeCoeffs {base off x : Nat} (h : x ∈ (writeCoeffs base off).reads mem) :
    off ≤ x ∧ x < off + 64 := by
  rw [writeCoeffs, reads_mapM, List.mem_flatMap] at h
  obtain ⟨i, hi, hx⟩ := h
  have hi' := List.mem_range.1 hi
  rw [reads_byte_bind] at hx
  obtain rfl := List.mem_singleton.1 hx
  omega

theorem reads_countLoop (i off n j sum last : Nat) :
    (countLoop i off n j sum last).reads mem = (List.range' j n).map (off + ·) := by
  induction n generalizing j sum last with
  | zero => rfl
  | succ n ih =>
    rw [countLoop, reads_byte_bind, reads_bind, ih, List.range'_succ, List.map_cons]
    exact congrArg _ (List.append_nil _)

theorem mem_reads_codeLoop {i off last n j sum x : Nat} (h : x ∈ (codeLoop i off last n j sum).reads mem) :
    off + j ≤ x ∧ x < off + j + n := by
  induction n generalizing j sum with
  | zero => exact absurd h List.not_mem_nil
  | succ n ih =>
    rw [codeLoop] at h
    split at h
    · rw [reads_byte_bind, reads_bind, List.mem_cons, List.mem_append] at h
      rcases h with rfl | h | h
      · omega
      · have := ih h
        omega
      · exact absurd h List.not_mem_nil
    · rw [reads_bind, List.mem_append] at h
      rcases h with h | h
      · have := ih h
        omega
      · exact absurd h List.not_mem_nil

/-- A round reads the counts, and as many symbols as they sum to. -/
theorem mem_reads_huffmanWrites {i off x : Nat} (h : x ∈ (huffmanWrites i off).reads mem) :
    off ≤ x ∧ x < off + 16 + before (numAt mem off) 16 := by
  rw [huffmanWrites, reads_bind, reads_countLoop, countLoop_start, List.mem_append] at h
  rcases h with h | h
  · obtain ⟨j, hj, rfl⟩ := List.mem_map.1 h
    have := List.mem_range'_1.1 hj
    omega
  · dsimp only at h
    rw [reads_bind, reads_mapM, reads_bind, List.mem_append, List.mem_append] at h
    rcases h with h | h | h
    · obtain ⟨k, hk, hx⟩ := List.mem_flatMap.1 h
      have hk' := List.mem_range.1 hk
      rw [reads_byte_bind] at hx
      obtain rfl := List.mem_singleton.1 hx
      omega
    · have := mem_reads_codeLoop h
      omega
    · exact absurd h List.not_mem_nil

end Camview.Hw
