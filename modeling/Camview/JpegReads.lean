/-
Which bytes `parse_jpeg` reads. The parser checks `pos + 2 < len` and
`pos + seg_len < len`, and reads quantization tables inside a segment; a restart
interval, the headers and the counts of a Huffman table it reads at fixed
offsets, whatever the segment's length.

`parse_reads_iff` says for which buffers all reads are inside: those in which
each segment the parser gets to (`Reaches`) holds what is read of it (`Covered`).
-/
import Camview.Jpeg

namespace Camview

open Reader

variable {mem : Nat → UInt8} {len : Nat}

/-! ## Tables -/

theorem readsBelow_be16 {pos : Nat} : ReadsBelow mem len (be16 pos) ↔ pos + 1 < len := by
  rw [be16, readsBelow_byte_bind, readsBelow_byte_bind]
  constructor
  · intro h
    exact h.2.1
  · intro h
    exact ⟨by omega, h, readsBelow_pure _⟩

/-- Quantization tables are read inside the payload. -/
theorem readsBelow_processDqt {base : Nat} {size : Int} (hsize : base + size ≤ len) (pos : Nat) (jpeg : JpegT) :
    ReadsBelow mem len (processDqt base size pos jpeg) := by
  induction pos, jpeg using processDqt.induct base size with
  | case1 pos jpeg hpos ih =>
    have hlt : base + pos < len := by omega
    rw [processDqt, if_pos hpos, readsBelow_byte_bind]
    refine ⟨hlt, ?_⟩
    split
    · exact readsBelow_pure _
    · rw [readsBelow_byte_bind]
      exact ⟨hlt, ih _⟩
  | case2 pos jpeg hpos =>
    rw [processDqt, if_neg hpos]
    exact readsBelow_pure _

theorem readsBelow_sumNum {pos n : Nat} : ReadsBelow mem len (sumNum pos n) ↔ n = 0 ∨ pos + n ≤ len := by
  induction n with
  | zero => exact ⟨fun _ => .inl rfl, fun _ => readsBelow_pure _⟩
  | succ n ih =>
    rw [sumNum, readsBelow_bind, ih, readsBelow_byte_bind]
    constructor
    · intro h
      right
      omega
    · intro h
      refine ⟨?_, by omega, readsBelow_pure _⟩
      omega

/-- The sum of the 16 counts of the Huffman table at `off`, its id before them. -/
def symbols (mem : Nat → UInt8) (off : Nat) : Nat := (sumNum (off + 1) 16).run mem

/-- Where table `k` starts of those laid out from `off` on. -/
def tableStart (mem : Nat → UInt8) (off : Nat) : Nat → Nat
  | 0 => off
  | k + 1 => tableStart mem (off + 17 + symbols mem off) k

theorem le_tableStart (mem : Nat → UInt8) (off k : Nat) : off ≤ tableStart mem off k := by
  induction k generalizing off with
  | zero => exact Nat.le_refl off
  | succ k ih =>
    have := ih (off + 17 + symbols mem off)
    rw [tableStart]
    omega

/-- Of each Huffman table that starts in the payload the id and all 16 counts are
read, inside the payload or not. -/
theorem readsBelow_processDht {base : Nat} {size : Int} (pos : Nat) (jpeg : JpegT) :
    ReadsBelow mem len (processDht base size pos jpeg) ↔
      ∀ k, (tableStart mem (base + pos) k : Int) < base + size → tableStart mem (base + pos) k + 16 < len := by
  induction pos, jpeg using processDht.induct base size with
  | case1 pos jpeg hpos ih =>
    rw [processDht, if_pos hpos, readsBelow_byte_bind, readsBelow_byte_bind]
    dsimp only
    rw [readsBelow_bind, readsBelow_sumNum, ih]
    have hnext : base + (pos + 17 + (sumNum (base + pos + 1) 16).run mem) =
        base + pos + 17 + symbols mem (base + pos) := by
      rw [symbols]
      omega
    rw [hnext]
    constructor
    · rintro ⟨-, -, hcounts, hrest⟩ k hk
      cases k with
      | zero =>
        rw [tableStart]
        omega
      | succ k =>
        rw [tableStart] at hk ⊢
        exact hrest k hk
    · intro h
      have h0 := h 0
      rw [tableStart] at h0
      have hlt : base + pos + 16 < len := h0 (by omega)
      refine ⟨by omega, by omega, by omega, fun k hk => ?_⟩
      have hk' := h (k + 1)
      rw [tableStart] at hk'
      exact hk' hk
  | case2 pos jpeg hpos =>
    rw [processDht, if_neg hpos]
    refine iff_of_true (readsBelow_pure _) fun k hk => ?_
    have := le_tableStart mem (base + pos) k
    omega

/-! ## Headers -/

/-- `id` of component `i`, minus one, is at most 2. -/
def ValidId (b : UInt8) : Prop := (b - 1).toNat < 3

instance (b : UInt8) : Decidable (ValidId b) := inferInstanceAs (Decidable (_ < _))

/-- The components read of a header with `n` of them, in entries of `size` bytes
from `first` on: each one up to the first with a bad id, of which only the id is
read. -/
structure CompsBelow (mem : Nat → UInt8) (len n first size : Nat) : Prop where
  id : ∀ i < n, (∀ j < i, ValidId (mem (first + size * j))) → first + size * i < len
  entry : ∀ i < n, (∀ j ≤ i, ValidId (mem (first + size * j))) → first + size * i + (size - 1) < len

theorem compsBelow_zero {first size : Nat} : CompsBelow mem len 0 first size :=
  ⟨fun _ h => absurd h (Nat.not_lt_zero _), fun _ h => absurd h (Nat.not_lt_zero _)⟩

/-- The first entry, and the ones after it if its id is good. -/
theorem compsBelow_succ {n first size : Nat} :
    CompsBelow mem len (n + 1) first size ↔
      first < len ∧ (ValidId (mem first) → first + (size - 1) < len ∧ CompsBelow mem len n (first + size) size) := by
  have hnext : ∀ j, first + size + size * j = first + size * (j + 1) := fun j => by
    rw [Nat.mul_add, Nat.mul_one]
    omega
  constructor
  · intro h
    refine ⟨h.id 0 (by omega) (fun j hj => absurd hj (Nat.not_lt_zero j)), fun hv => ⟨?_, ?_, ?_⟩⟩
    · refine h.entry 0 (by omega) fun j hj => ?_
      rw [Nat.le_zero.1 hj]
      exact hv
    · intro i hi hids
      rw [hnext]
      refine h.id (i + 1) (by omega) fun j hj => ?_
      cases j with
      | zero => exact hv
      | succ j => rw [← hnext]; exact hids j (by omega)
    · intro i hi hids
      rw [hnext]
      refine h.entry (i + 1) (by omega) fun j hj => ?_
      cases j with
      | zero => exact hv
      | succ j => rw [← hnext]; exact hids j (by omega)
  · rintro ⟨hfirst, hrest⟩
    refine ⟨fun i hi hids => ?_, fun i hi hids => ?_⟩
    · cases i with
      | zero => exact hfirst
      | succ i =>
        rw [← hnext]
        refine (hrest (hids 0 (by omega))).2.id i (by omega) fun j hj => ?_
        rw [hnext]
        exact hids (j + 1) (by omega)
    · have h0 := hrest (hids 0 (by omega))
      cases i with
      | zero => exact h0.1
      | succ i =>
        rw [← hnext]
        refine h0.2.entry i (by omega) fun j hj => ?_
        rw [hnext]
        exact hids (j + 1) (by omega)

theorem readsBelow_frameComps {pos i : Nat} {jpeg : JpegT} (hi : i ≤ (mem (pos + 7)).toNat) :
    ReadsBelow mem len (frameComps pos i jpeg) ↔
      pos + 7 < len ∧ CompsBelow mem len ((mem (pos + 7)).toNat - i) (pos + 8 + 3 * i) 3 := by
  obtain ⟨k, hk⟩ := Nat.exists_eq_add_of_le hi
  induction k generalizing i jpeg with
  | zero =>
    rw [frameComps, readsBelow_byte_bind, if_neg (by omega), hk, show i + 0 - i = 0 by omega]
    exact and_congr_right fun _ => iff_of_true (readsBelow_pure _) compsBelow_zero
  | succ k ih =>
    rw [frameComps, readsBelow_byte_bind, if_pos (by omega), readsBelow_byte_bind, hk,
      show i + (k + 1) - i = k + 1 by omega, compsBelow_succ]
    refine and_congr_right fun hpos => and_congr_right fun _ => ?_
    by_cases hv : (mem (pos + 8 + 3 * i) - 1).toNat < 3
    · rw [dif_pos hv, readsBelow_byte_bind, readsBelow_byte_bind, readsBelow_byte_bind,
        ih (by omega) (by omega), hk, show i + (k + 1) - (i + 1) = k by omega,
        show pos + 8 + 3 * (i + 1) = pos + 8 + 3 * i + 3 by omega]
      constructor
      · rintro ⟨-, -, hq, -, hrest⟩ -
        exact ⟨by omega, hrest⟩
      · intro h
        obtain ⟨hq, hrest⟩ := h hv
        exact ⟨by omega, by omega, by omega, hpos, hrest⟩
    · rw [dif_neg hv]
      exact iff_of_true (readsBelow_pure _) fun h => absurd h hv

theorem readsBelow_scanComps {pos i : Nat} {jpeg : JpegT} (hi : i ≤ (mem (pos + 2)).toNat) :
    ReadsBelow mem len (scanComps pos i jpeg) ↔
      pos + 2 < len ∧ CompsBelow mem len ((mem (pos + 2)).toNat - i) (pos + 3 + 2 * i) 2 := by
  obtain ⟨k, hk⟩ := Nat.exists_eq_add_of_le hi
  induction k generalizing i jpeg with
  | zero =>
    rw [scanComps, readsBelow_byte_bind, if_neg (by omega), hk, show i + 0 - i = 0 by omega]
    exact and_congr_right fun _ => iff_of_true (readsBelow_pure _) compsBelow_zero
  | succ k ih =>
    rw [scanComps, readsBelow_byte_bind, if_pos (by omega), readsBelow_byte_bind, hk,
      show i + (k + 1) - i = k + 1 by omega, compsBelow_succ]
    refine and_congr_right fun hpos => and_congr_right fun _ => ?_
    by_cases hv : (mem (pos + 3 + 2 * i) - 1).toNat < 3
    · rw [dif_pos hv, readsBelow_byte_bind, readsBelow_byte_bind,
        ih (by omega) (by omega), hk, show i + (k + 1) - (i + 1) = k by omega,
        show pos + 3 + 2 * (i + 1) = pos + 3 + 2 * i + 2 by omega]
      constructor
      · rintro ⟨-, hq, -, hrest⟩ -
        exact ⟨by omega, hrest⟩
      · intro h
        obtain ⟨hq, hrest⟩ := h hv
        exact ⟨by omega, by omega, hpos, hrest⟩
    · rw [dif_neg hv]
      exact iff_of_true (readsBelow_pure _) fun h => absurd h hv

/-! ## Segments -/

/-- The length field of the segment whose marker is at `q`. -/
def segLenAt (mem : Nat → UInt8) (q : Nat) : UInt16 := (be16 (q + 1)).run mem

/-- What the switch reads of the segment whose marker is at `q` is in the buffer. -/
structure Covered (mem : Nat → UInt8) (len q : Nat) : Prop where
  dht : mem q = mDht → ∀ k, tableStart mem (q + 3) k < q + 1 + (segLenAt mem q).toNat →
    tableStart mem (q + 3) k + 16 < len
  sof0 : mem q = mSof0 → q + 8 < len ∧ CompsBelow mem len (mem (q + 8)).toNat (q + 9) 3
  dri : mem q = mDri → q + 4 < len
  sos : mem q = mSos → q + 3 < len ∧ CompsBelow mem len (mem (q + 3)).toNat (q + 4) 2

/-- The switch goes on after the segment whose marker is at `q`: it is not the
scan, nor rejected, its quantization tables are of 8 bits and its components'
ids good. -/
structure GoesOn (mem : Nat → UInt8) (q : Nat) : Prop where
  marker : mem q ∉ mSos :: rejectedMarkers
  dqt : mem q = mDqt → ∀ k, 65 * k + 2 < (segLenAt mem q).toNat → mem (q + 3 + 65 * k) >>> 4 = 0
  sof0 : mem q = mSof0 → ∀ i < (mem (q + 8)).toNat, ValidId (mem (q + 9 + 3 * i))

/-- What is asked of one marker is not asked of another. -/
theorem of_other_marker {q : Nat} {marker marker' : UInt8} {C : Prop} (e : mem q = marker) (h : marker ≠ marker') :
    mem q = marker' → C := fun e' => absurd (e.symm.trans e') h

theorem readsBelow_switchMarker {q : Nat} {jpeg : JpegT} (hlen : q + 1 + (segLenAt mem q).toNat < len) :
    ReadsBelow mem len (switchMarker (mem q) (q + 1) (segLenAt mem q) jpeg) ↔ Covered mem len q := by
  by_cases hk : mem q ∈ knownMarkers
  · simp only [knownMarkers, List.mem_cons, List.not_mem_nil, or_false] at hk
    rcases hk with e | e | e | e | e
    · rw [e, switchMarker_dqt, readsBelow_bind_pure]
      exact iff_of_true (readsBelow_processDqt (by omega) 0 jpeg)
        ⟨of_other_marker e (by decide), of_other_marker e (by decide), of_other_marker e (by decide),
          of_other_marker e (by decide)⟩
    · rw [e, switchMarker_dht, readsBelow_bind_pure, readsBelow_processDht]
      have hend : ∀ t : Nat, (t : Int) < (q + 1 + 2 : Nat) + ((segLenAt mem q).toNat - 2) ↔
          t < q + 1 + (segLenAt mem q).toNat := fun t => by omega
      simp only [hend]
      constructor
      · exact fun h => ⟨fun _ => h, of_other_marker e (by decide), of_other_marker e (by decide),
          of_other_marker e (by decide)⟩
      · exact fun h => h.dht e
    · rw [e, switchMarker_sof0, readsBelow_byte_bind, readsBelow_bind, readsBelow_be16, readsBelow_bind,
        readsBelow_be16, readsBelow_bind_pure, readsBelow_frameComps (Nat.zero_le _)]
      constructor
      · rintro ⟨-, -, -, h⟩
        exact ⟨of_other_marker e (by decide), fun _ => h, of_other_marker e (by decide), of_other_marker e (by decide)⟩
      · intro h
        obtain ⟨h8, hcomps⟩ := h.sof0 e
        exact ⟨by omega, by omega, by omega, h8, hcomps⟩
    · rw [e, switchMarker_dri, readsBelow_bind_pure, readsBelow_be16]
      constructor
      · exact fun h => ⟨of_other_marker e (by decide), of_other_marker e (by decide), fun _ => h,
          of_other_marker e (by decide)⟩
      · exact fun h => h.dri e
    · rw [e, switchMarker_sos, readsBelow_bind_pure, readsBelow_scanComps (Nat.zero_le _)]
      constructor
      · exact fun h => ⟨of_other_marker e (by decide), of_other_marker e (by decide), of_other_marker e (by decide),
          fun _ => h⟩
      · exact fun h => h.sos e
  · rw [switchMarker_other _ _ _ hk]
    simp only [knownMarkers, List.mem_cons, List.not_mem_nil, or_false, not_or] at hk
    obtain ⟨-, h2, h3, h4, h5⟩ := hk
    refine iff_of_true ?_ ⟨fun h => absurd h h2, fun h => absurd h h3, fun h => absurd h h4, fun h => absurd h h5⟩
    split
    · exact readsBelow_pure _
    · exact readsBelow_pure _

/-! ## Which segments are read -/

theorem processDqt_isSome {base : Nat} {size : Int} (pos : Nat) (jpeg : JpegT) :
    ((processDqt base size pos jpeg).run mem).isSome ↔
      ∀ k : Nat, ((pos + 65 * k : Nat) : Int) < size → mem (base + pos + 65 * k) >>> 4 = 0 := by
  induction pos, jpeg using processDqt.induct base size with
  | case1 pos jpeg hpos ih =>
    rw [processDqt, if_pos hpos, run_byte_bind]
    by_cases hpq : mem (base + pos) >>> 4 = 0
    · rw [if_neg (not_not.2 hpq), run_byte_bind, ih]
      constructor
      · intro h k hk
        cases k with
        | zero => exact hpq
        | succ k =>
          have := h k (by omega)
          rwa [show base + pos + 65 * (k + 1) = base + (pos + 65) + 65 * k by omega]
      · intro h k hk
        have := h (k + 1) (by omega)
        rwa [show base + pos + 65 * (k + 1) = base + (pos + 65) + 65 * k by omega] at this
    · rw [if_pos hpq]
      exact iff_of_false (by simp) fun h => hpq (h 0 (by omega))
  | case2 pos jpeg hpos =>
    rw [processDqt, if_neg hpos]
    exact iff_of_true rfl fun k hk => by omega

theorem frameComps_isSome {pos i : Nat} {jpeg : JpegT} (hi : i ≤ (mem (pos + 7)).toNat) :
    ((frameComps pos i jpeg).run mem).isSome ↔
      ∀ m, i ≤ m → m < (mem (pos + 7)).toNat → ValidId (mem (pos + 8 + 3 * m)) := by
  obtain ⟨k, hk⟩ := Nat.exists_eq_add_of_le hi
  induction k generalizing i jpeg with
  | zero =>
    rw [frameComps, run_byte_bind, if_neg (by omega)]
    exact iff_of_true rfl fun m him hm => by omega
  | succ k ih =>
    rw [frameComps, run_byte_bind, if_pos (by omega), run_byte_bind]
    by_cases hv : (mem (pos + 8 + 3 * i) - 1).toNat < 3
    · rw [dif_pos hv, run_byte_bind, run_byte_bind, run_byte_bind, ih (by omega) (by omega)]
      constructor
      · intro h m him hm
        by_cases e : m = i
        · rw [e]
          exact hv
        · exact h m (by omega) hm
      · exact fun h m him hm => h m (by omega) hm
    · rw [dif_neg hv]
      exact iff_of_false (by simp) fun h => hv (h i (Nat.le_refl i) (by omega))

/-- Whether the switch goes on does not depend on the record. -/
theorem goesOn_iff {q : Nat} (jpeg : JpegT) :
    (∃ jpeg', (switchMarker (mem q) (q + 1) (segLenAt mem q) jpeg).run mem = some (jpeg', false)) ↔ GoesOn mem q := by
  have some_iff {r : Option JpegT} : (∃ jpeg', r.map (·, false) = some (jpeg', false)) ↔ r.isSome := by
    cases r <;> simp
  by_cases hk : mem q ∈ knownMarkers
  · simp only [knownMarkers, List.mem_cons, List.not_mem_nil, or_false] at hk
    rcases hk with e | e | e | e | e
    · rw [e, switchMarker_dqt, run_bind]
      simp only [run_pure]
      rw [some_iff, processDqt_isSome]
      have hpos : ∀ k : Nat, ((0 + 65 * k : Nat) : Int) < (segLenAt mem q).toNat - 2 ↔
          65 * k + 2 < (segLenAt mem q).toNat := fun k => by omega
      simp only [hpos]
      constructor
      · exact fun h => ⟨by rw [e]; decide, fun _ => h, of_other_marker e (by decide)⟩
      · exact fun h => h.dqt e
    · rw [e, switchMarker_dht, run_bind]
      exact iff_of_true ⟨_, rfl⟩ ⟨by rw [e]; decide, of_other_marker e (by decide), of_other_marker e (by decide)⟩
    · rw [e, switchMarker_sof0, run_byte_bind, run_bind, run_bind, run_bind]
      simp only [run_pure]
      rw [some_iff, frameComps_isSome (Nat.zero_le _)]
      constructor
      · exact fun h => ⟨by rw [e]; decide, of_other_marker e (by decide), fun _ i hi => h i (Nat.zero_le i) hi⟩
      · exact fun h i _ hi => h.sof0 e i hi
    · rw [e, switchMarker_dri, run_bind]
      exact iff_of_true ⟨_, rfl⟩ ⟨by rw [e]; decide, of_other_marker e (by decide), of_other_marker e (by decide)⟩
    · rw [e, switchMarker_sos, run_bind]
      refine iff_of_false ?_ fun h => h.marker (by rw [e]; decide)
      rintro ⟨jpeg', h⟩
      simp at h
  · rw [switchMarker_other _ _ _ hk]
    simp only [knownMarkers, List.mem_cons, List.not_mem_nil, or_false, not_or] at hk
    obtain ⟨h1, -, h3, -, h5⟩ := hk
    split
    · next hr =>
      refine iff_of_false ?_ fun h => h.marker (List.mem_cons_of_mem _ hr)
      rintro ⟨jpeg', h⟩
      cases h
    · next hr =>
      refine iff_of_true ⟨jpeg, rfl⟩ ⟨?_, fun h => absurd h h1, fun h => absurd h h3⟩
      rw [List.mem_cons, not_or]
      exact ⟨h5, hr⟩

/-- A segment with its marker at `q`, after the fill bytes from `p` on: the
parser's two checks pass. -/
structure SegmentAt (mem : Nat → UInt8) (len p q : Nat) : Prop where
  le : p ≤ q
  fill : ∀ i, p ≤ i → i < q → mem i = 0xff
  stop : mem q ≠ 0xff
  header : q + 2 < len
  payload : q + 1 + (segLenAt mem q).toNat < len

/-- From `p`, the parser gets to the segment whose marker is at `q`. -/
inductive Reaches (mem : Nat → UInt8) (len : Nat) : Nat → Nat → Prop
  | here : SegmentAt mem len p q → Reaches mem len p q
  | next : SegmentAt mem len p q → GoesOn mem q → Reaches mem len (q + 1 + (segLenAt mem q).toNat) q' →
      Reaches mem len p q'

theorem skipFill_spec (mem : Nat → UInt8) (len p : Nat) :
    (∀ i, p ≤ i → i < ((skipFill len p).run mem).1 → mem i = 0xff) ∧
      (((skipFill len p).run mem).1 < len → mem ((skipFill len p).run mem).1 ≠ 0xff) := by
  induction p using skipFill.induct len with
  | case1 p hp ih =>
    rw [skipFill, if_pos hp, run_byte_bind]
    by_cases hb : mem p = 0xff
    · rw [if_pos hb, run_bind]
      refine ⟨fun i hpi hi => ?_, ih.2⟩
      by_cases e : i = p
      · rw [e]
        exact hb
      · exact ih.1 i (by omega) hi
    · rw [if_neg hb]
      exact ⟨fun i hpi hi => absurd hi (Nat.not_lt.2 hpi), fun _ => hb⟩
  | case2 p hp =>
    rw [skipFill, if_neg hp]
    exact ⟨fun i hpi hi => absurd hi (Nat.not_lt.2 hpi), fun h => absurd h hp⟩

theorem readsBelow_skipFill (p : Nat) : ReadsBelow mem len (skipFill len p) := by
  induction p using skipFill.induct len with
  | case1 p hp ih =>
    rw [skipFill, if_pos hp, readsBelow_byte_bind]
    refine ⟨hp, ?_⟩
    split
    · rw [readsBelow_bind_pure]
      exact ih
    · exact readsBelow_pure _
  | case2 p hp =>
    rw [skipFill, if_neg hp]
    exact readsBelow_pure _

/-- A segment's marker is where the parser stops skipping. -/
theorem SegmentAt.eq_skipFill {p q : Nat} (h : SegmentAt mem len p q) : ((skipFill len p).run mem).1 = q := by
  obtain ⟨hfill, hstop⟩ := skipFill_spec mem len p
  have hle := ((skipFill len p).run mem).2
  have hq := h.header
  by_contra hne
  rcases Nat.lt_or_gt_of_ne hne with hlt | hgt
  · exact hstop (by omega) (h.fill _ hle hlt)
  · exact h.stop (hfill q h.le hgt)

/-- The segments reached from a segment on: itself, and those after it if the
switch goes on. -/
theorem forall_reaches {p q : Nat} (h : SegmentAt mem len p q) {C : Nat → Prop} :
    (∀ q', Reaches mem len p q' → C q') ↔
      C q ∧ (GoesOn mem q → ∀ q', Reaches mem len (q + 1 + (segLenAt mem q).toNat) q' → C q') := by
  constructor
  · exact fun hC => ⟨hC q (.here h), fun hg q' hr => hC q' (.next h hg hr)⟩
  · rintro ⟨hq, hrest⟩ q' hr
    cases hr with
    | here h' =>
      rw [← h'.eq_skipFill, h.eq_skipFill]
      exact hq
    | next h' hg hr =>
      have e := h'.eq_skipFill.symm.trans h.eq_skipFill
      rw [e] at hg hr
      exact hrest hg q' hr

theorem readsBelow_parseSegments (p : Nat) (jpeg : JpegT) :
    ReadsBelow mem len (parseSegments len p jpeg) ↔ ∀ q, Reaches mem len p q → Covered mem len q := by
  induction p, jpeg using parseSegments.induct len with
  | case1 p jpeg ih =>
    obtain ⟨hfill, hstop⟩ := skipFill_spec mem len p
    have huniq : ∀ q, SegmentAt mem len p q → ((skipFill len p).run mem).1 = q := fun q h => h.eq_skipFill
    rw [parseSegments, readsBelow_bind, and_iff_right (readsBelow_skipFill p)]
    generalize (skipFill len p).run mem = q at hfill hstop huniq
    -- Without a segment at `p` nothing is reached, and nothing more is read.
    have none_reached : ¬ SegmentAt mem len p q.1 → ∀ q', Reaches mem len p q' → Covered mem len q' := by
      intro hn q' hr
      cases hr with
      | here h => exact absurd (huniq _ h ▸ h) hn
      | next h => exact absurd (huniq _ h ▸ h) hn
    by_cases hheader : q.1 + 2 < len
    · rw [if_pos hheader, readsBelow_byte_bind, readsBelow_bind, readsBelow_be16]
      have hhead : q.1 < len ∧ q.1 + 1 + 1 < len := by omega
      rw [and_iff_right hhead.1, and_iff_right hhead.2, show (be16 (q.1 + 1)).run mem = segLenAt mem q.1 from rfl]
      by_cases hpayload : q.1 + 1 + (segLenAt mem q.1).toNat < len
      · have hseg : SegmentAt mem len p q.1 := ⟨q.2, hfill, hstop hhead.1, hheader, hpayload⟩
        rw [if_pos hpayload, readsBelow_bind, readsBelow_switchMarker hpayload, forall_reaches hseg,
          ← goesOn_iff jpeg]
        refine and_congr_right fun _ => ?_
        rcases (switchMarker (mem q.1) (q.1 + 1) (segLenAt mem q.1) jpeg).run mem with - | ⟨jpeg', sos⟩
        · exact iff_of_true (readsBelow_pure _) fun ⟨_, h⟩ => by cases h
        · cases sos with
          | true => exact iff_of_true (readsBelow_pure _) fun ⟨_, h⟩ => by cases h
          | false =>
            refine (ih q hheader (segLenAt mem q.1) hpayload jpeg').trans ?_
            exact ⟨fun h _ => h, fun h => h ⟨jpeg', rfl⟩⟩
      · rw [if_neg hpayload]
        exact iff_of_true (readsBelow_pure _) (none_reached fun h => hpayload h.payload)
    · rw [if_neg hheader]
      exact iff_of_true (readsBelow_pure _) (none_reached fun h => hheader h.header)

/-- **Which buffers are read in bounds.** For every buffer of every length, the
bytes beyond it being whatever they are: `parse_jpeg` reads inside the buffer
exactly when, if the buffer starts as a JPEG does, each segment the parser gets
to holds what the switch reads of it. -/
theorem parse_reads_iff (mem : Nat → UInt8) (len : Nat) :
    (∀ i ∈ (parseJpeg len).reads mem, i < len) ↔
      (2 ≤ len → mem 0 = 0xff → mem 1 = mSoi → ∀ q, Reaches mem len 2 q → Covered mem len q) := by
  show ReadsBelow mem len (parseJpeg len) ↔ _
  unfold parseJpeg
  by_cases hlen : len < 2
  · rw [if_pos hlen]
    exact iff_of_true (readsBelow_pure _) fun h => absurd hlen (Nat.not_lt.2 h)
  rw [if_neg hlen, readsBelow_byte_bind, and_iff_right (by omega)]
  by_cases h0 : mem 0 = 0xff
  · rw [if_neg (not_not.2 h0), readsBelow_byte_bind, and_iff_right (by omega)]
    by_cases h1 : mem 1 = mSoi
    · rw [if_neg (not_not.2 h1), readsBelow_parseSegments]
      exact ⟨fun h _ _ _ => h, fun h => h (Nat.not_lt.1 hlen) h0 h1⟩
    · rw [if_pos h1]
      exact iff_of_true (readsBelow_pure _) fun _ _ h => absurd h h1
  · rw [if_pos h0]
    exact iff_of_true (readsBelow_pure _) fun _ h => absurd h h0

/-- A frame header of length 0 at the end of the buffer. -/
def truncatedFrame : List UInt8 := [0xff, 0xd8, 0xff, 0xc0, 0x00, 0x00]

/-- Its precision is read right behind the buffer. -/
theorem not_parse_reads : ¬ ∀ (mem : Nat → UInt8) (len : Nat), ∀ i ∈ (parseJpeg len).reads mem, i < len := by
  intro h
  have h6 := h (fun i => truncatedFrame.getD i 0) 6 6 (by decide +kernel)
  exact absurd h6 (by decide)

end Camview
