/-
The tables an accepted buffer leaves in the record, and what `set_quantization_tables`
and `set_huffman_tables` do through these pointers. `process_dqt` and `process_dht`
stop when a table takes them past the end of the segment, and keep the table.

A pointer is to the last table of its id (`place_eq_lastTable`). So what is asked of
every table in the record fails for a table of the buffer only if a later one
replaces it (`Replaced`).
-/
import Camview.HuffmanWrites
import Camview.JpegGrammar

namespace Camview

open Reader Hw Canonical

variable {mem : Nat → UInt8} {len : Nat}

/-! ## Pointers and tables -/

/-- Each table of the list that is `bad` is replaced by a later one of its id. -/
def Replaced {κ : Type} (id : Nat → κ) (bad : Table → Prop) (ts : List Table) : Prop :=
  ∀ pre t post, ts = pre ++ t :: post → bad t → ∃ u ∈ post, id u.off = id t.off

theorem replaced_nil {κ : Type} {id : Nat → κ} {bad : Table → Prop} : Replaced id bad [] := by
  intro pre t post h
  exact absurd h.symm (List.append_ne_nil_of_right_ne_nil pre (List.cons_ne_nil t post))

theorem replaced_cons {κ : Type} {id : Nat → κ} {bad : Table → Prop} {t : Table} {ts : List Table}
    (ht : bad t → ∃ u ∈ ts, id u.off = id t.off) (h : Replaced id bad ts) : Replaced id bad (t :: ts) := by
  intro pre u post he hbad
  cases pre with
  | nil =>
    obtain ⟨rfl, rfl⟩ := List.cons.inj he
    exact ht hbad
  | cons _ pre => exact h pre u post (List.cons.inj he).2 hbad

/-- The table a pointer with key `k` is to. -/
def lastTable {κ : Type} [DecidableEq κ] (id : Nat → κ) (k : κ) (ts : List Table) : Option Table :=
  lastWith (fun t => id t.off) k ts

section Kind

variable {κ : Type} [DecidableEq κ] {id : Nat → κ} {size : Nat → Nat} {ts : List Table} {ptr : κ → Option Nat}

theorem place_eq_lastTable (hptr : ptr = ts.foldl (place id) fun _ => none) (k : κ) :
    ptr k = (lastTable id k ts).map (·.off + 1) := by
  rw [hptr]
  show ts.foldl (fun (f : κ → Option Nat) t => Function.update f (id t.off) (some (t.off + 1))) _ k = _
  rw [foldl_update, lastTable]
  cases lastWith (fun t : Table => id t.off) k ts with
  | none => rfl
  | some t => rfl

theorem forall_ptr_iff (hptr : ∀ k, ptr k = (lastTable id k ts).map (·.off + 1)) (good : Table → Prop) :
    (∀ k p, ptr k = some p → ∃ t, lastTable id k ts = some t ∧ p = t.off + 1 ∧ good t) ↔
      Replaced id (fun t => ¬ good t) ts := by
  have hlast : (∀ k t, lastTable id k ts = some t → good t) ↔ Replaced id (fun t => ¬ good t) ts := forall_lastWith_iff
  rw [← hlast]
  constructor
  · intro h k t ht
    obtain ⟨u, hu, -, hgood⟩ := h k (t.off + 1) (by rw [hptr, ht]; rfl)
    rw [ht] at hu
    cases hu
    exact hgood
  · intro h k p hp
    rw [hptr, Option.map_eq_some_iff] at hp
    obtain ⟨t, ht, rfl⟩ := hp
    exact ⟨t, ht, rfl, h k t ht⟩

end Kind

/-- The tables of a segment lie in it. -/
theorem mem_tablesFrom {size : Nat → Nat} {off stop x : Nat} (h : x ∈ tablesFrom size off stop) :
    off ≤ x ∧ x < stop := by
  induction off using tablesFrom.induct size stop with
  | case1 off hoff ih =>
    rw [tablesFrom, if_pos hoff] at h
    rcases List.mem_cons.1 h with rfl | h
    · exact ⟨Nat.le_refl x, hoff.1⟩
    · have := ih h
      omega
  | case2 off hoff =>
    rw [tablesFrom, if_neg hoff] at h
    exact absurd h List.not_mem_nil

/-- A segment that ends in its first table. -/
theorem tablesAt_one {marker : UInt8} {size : Nat → Nat} {q e : Nat} (hm : mem q = marker) (he : segEnd mem q = e)
    (hlt : q + 3 < e) (hsize : 0 < size (q + 3)) (hle : e ≤ q + 3 + size (q + 3)) :
    tablesAt mem marker size q = [⟨q + 3, e⟩] := by
  rw [tablesAt, if_pos hm, he, tablesFrom, if_pos ⟨hlt, hsize⟩, tablesFrom, if_neg (by omega)]
  rfl

/-- The segment that defines a table, its marker at `q`. -/
structure DefinedIn (mem : Nat → UInt8) (len : Nat) (marker : UInt8) (t : Table) (q : Nat) : Prop where
  marker : mem q = marker
  first : q + 3 ≤ t.off
  stop : t.stop = segEnd mem q
  lt : segEnd mem q < len

theorem exists_definedIn {p e : Nat} {qs : List Nat} (h : Segments mem len p qs e) {marker : UInt8} {size : Nat → Nat}
    {t : Table} (ht : t ∈ qs.flatMap (tablesAt mem marker size)) : ∃ q ∈ qs, DefinedIn mem len marker t q := by
  obtain ⟨q, hq, hmem⟩ := List.mem_flatMap.1 ht
  unfold tablesAt at hmem
  split at hmem
  · next hmarker =>
    obtain ⟨off, hoff, rfl⟩ := List.mem_map.1 hmem
    exact ⟨q, hq, hmarker, (mem_tablesFrom hoff).1, rfl, h.segEnd_lt q hq⟩
  · exact absurd hmem List.not_mem_nil

/-! ## Tables inside their segment -/

/-- The pointer `p` is to table `k`, whole and inside the segment that defines it. -/
def InSegment {κ : Type} [DecidableEq κ] (mem : Nat → UInt8) (len : Nat) (qs : List Nat) (marker : UInt8)
    (size : Nat → Nat) (id : Nat → κ) (k : κ) (p : Nat) (t : Table) : Prop :=
  lastTable id k (qs.flatMap (tablesAt mem marker size)) = some t ∧ p = t.off + 1 ∧ t.Whole size ∧
    ∃ q ∈ qs, DefinedIn mem len marker t q

/-- Every table of the record is, and is read there. -/
structure TablesInside (mem : Nat → UInt8) (len : Nat) (qs : List Nat) (jpeg : JpegT) : Prop where
  quant : ∀ k p, jpeg.quant k = some p → ∃ t, InSegment mem len qs mDqt quantSize (quantId mem) k p t
  huffman : ∀ k p, jpeg.huffman k = some p → ∃ t, InSegment mem len qs mDht (huffmanSize mem) (huffmanId mem) k p t
  readsQuant : ∀ x ∈ (setQuantizationTables jpeg).reads mem,
    ∃ k p t, jpeg.quant k = some p ∧ InSegment mem len qs mDqt quantSize (quantId mem) k p t ∧ t.off < x ∧ x < t.stop
  readsHuffman : ∀ x ∈ (setHuffmanTables jpeg).reads mem,
    ∃ k p t, jpeg.huffman k = some p ∧ InSegment mem len qs mDht (huffmanSize mem) (huffmanId mem) k p t ∧
      t.off < x ∧ x < t.stop

theorem forall_inSegment_iff {κ : Type} [DecidableEq κ] {p e : Nat} {qs : List Nat} (h : Segments mem len p qs e)
    {marker : UInt8} {size : Nat → Nat} {id : Nat → κ} {ptr : κ → Option Nat}
    (hptr : ptr = (qs.flatMap (tablesAt mem marker size)).foldl (place id) fun _ => none) :
    (∀ k p, ptr k = some p → ∃ t, InSegment mem len qs marker size id k p t) ↔
      Replaced id (fun t => ¬ t.Whole size) (qs.flatMap (tablesAt mem marker size)) := by
  rw [← forall_ptr_iff (place_eq_lastTable hptr) fun t => t.Whole size]
  constructor
  · intro hin k p hp
    obtain ⟨t, hlast, hpt, hwhole, -⟩ := hin k p hp
    exact ⟨t, hlast, hpt, hwhole⟩
  · intro hall k p hp
    obtain ⟨t, hlast, hpt, hwhole⟩ := hall k p hp
    exact ⟨t, hlast, hpt, hwhole, exists_definedIn h (lastWith_mem hlast).1⟩

theorem mem_reads_setQuantizationTables {jpeg : JpegT} {x : Nat} (h : x ∈ (setQuantizationTables jpeg).reads mem) :
    ∃ k p, jpeg.quant k = some p ∧ p ≤ x ∧ x < p + 64 := by
  unfold setQuantizationTables at h
  split at h
  · next q0 q1 h0 h1 =>
    rw [reads_bind, reads_bind, List.mem_append, List.mem_append] at h
    rcases h with h | h | h
    · exact ⟨0, q0, h0, mem_reads_writeCoeffs h⟩
    · exact ⟨1, q1, h1, mem_reads_writeCoeffs h⟩
    · exact absurd h List.not_mem_nil
  · exact absurd h List.not_mem_nil

theorem mem_reads_setHuffmanTables {jpeg : JpegT} {x : Nat} (h : x ∈ (setHuffmanTables jpeg).reads mem) :
    ∃ k p, jpeg.huffman k = some p ∧ p ≤ x ∧ x < p + 16 + before (numAt mem p) 16 := by
  rw [setHuffmanTables, reads_bind, reads_mapM, List.mem_append] at h
  rcases h with h | h
  · obtain ⟨k, -, hx⟩ := List.mem_flatMap.1 h
    split at hx
    · next p hp => exact ⟨k, p, hp, mem_reads_huffmanWrites hx⟩
    · exact absurd hx List.not_mem_nil
  · exact absurd h List.not_mem_nil

/-- **Which buffers leave only tables inside their segment.** For every accepted
buffer: each pointer of the record is to a table that lies whole in the segment
that defines it, and the tables are read there, exactly when every table cut by
the end of its segment is replaced by a later one of its id. -/
theorem tables_inside_iff {jpeg : JpegT} (h : (parseJpeg len).run mem = some jpeg) :
    ∃ qs e, Segments mem len 2 qs e ∧
      (TablesInside mem len qs jpeg ↔
        Replaced (quantId mem) (fun t => ¬ t.Whole quantSize) (quantTables mem qs) ∧
          Replaced (huffmanId mem) (fun t => ¬ t.Whole (huffmanSize mem)) (huffmanTables mem qs)) := by
  obtain ⟨-, -, qs, e, hsegs, hrec⟩ := segments_of_parse h
  refine ⟨qs, e, hsegs, ?_⟩
  rw [quantTables, huffmanTables, ← forall_inSegment_iff hsegs hrec.quant, ← forall_inSegment_iff hsegs hrec.huffman]
  constructor
  · intro hin
    exact ⟨hin.quant, hin.huffman⟩
  · rintro ⟨hquant, hhuffman⟩
    refine ⟨hquant, hhuffman, ?_, ?_⟩
    · intro x hx
      obtain ⟨k, p, hp, hle, hlt⟩ := mem_reads_setQuantizationTables hx
      obtain ⟨t, ht⟩ := hquant k p hp
      have hwhole : t.off + 65 ≤ t.stop := ht.2.2.1
      have hpt : p = t.off + 1 := ht.2.1
      exact ⟨k, p, t, hp, ht, by omega, by omega⟩
    · intro x hx
      obtain ⟨k, p, hp, hle, hlt⟩ := mem_reads_setHuffmanTables hx
      obtain ⟨t, ht⟩ := hhuffman k p hp
      have hwhole : t.off + (17 + symbols mem t.off) ≤ t.stop := ht.2.2.1
      have hpt : p = t.off + 1 := ht.2.1
      rw [hpt, ← symbols_eq] at hlt
      exact ⟨k, p, t, hp, ht, by omega, by omega⟩

/-- A quantization table that is cut, a Huffman table of 257 symbols, whole ones of the same
ids behind them, and a scan header without components. -/
def replacedTables : List UInt8 :=
  [0xff, mSoi, 0xff, mDqt, 0, 3, 0, 0xff, mDqt, 0, 67, 0] ++ List.replicate 64 1 ++
    [0xff, mDht, 1, 20, 0, 255, 2] ++ List.replicate (14 + 257) 0 ++
    [0xff, mDht, 0, 20, 0, 1] ++ List.replicate 15 0 ++ [5, 0xff, mSos, 0, 3, 0, 0, 0, 0]

def replacedMem (i : Nat) : UInt8 := replacedTables.getD i 0

theorem replaced_segments : Segments replacedMem replacedTables.length 2 [3, 8, 77, 355, 377] 381 := by
  have hlen : replacedTables.length = 384 := by decide +kernel
  have at' {q e : Nat} (he : segEnd replacedMem (q + 1) = e)
      (hm : replacedMem q = 0xff ∧ replacedMem (q + 1) ≠ 0xff) (h : q + 3 < 384 ∧ e < 384) :
      SegmentAt replacedMem replacedTables.length q (q + 1) := by
    rw [hlen]
    refine ⟨Nat.le_succ q, fun i h1 h2 => ?_, hm.2, h.1, ?_⟩
    · rw [Nat.le_antisymm (Nat.le_of_lt_succ h2) h1]
      exact hm.1
    · rw [← he] at h
      exact h.2
  have h377 : Segments replacedMem replacedTables.length 376 [377] 381 := by
    have he : segEnd replacedMem 377 = 381 := by decide +kernel
    have h := Segments.scan (at' he (by decide +kernel) (by omega)) (by decide +kernel) (fun i hi => absurd hi (by
      rw [show (replacedMem (377 + 3)).toNat = 0 by decide +kernel]
      exact Nat.not_lt_zero i))
    rwa [he] at h
  have h355 : Segments replacedMem replacedTables.length 354 [355, 377] 381 := by
    have he : segEnd replacedMem 355 = 376 := by decide +kernel
    refine .segment (at' he (by decide +kernel) (by omega)) ⟨by decide +kernel, fun e => ?_, fun e => ?_⟩
      (by rw [he]; exact h377)
    · exact absurd e (by decide +kernel)
    · exact absurd e (by decide +kernel)
  have h77 : Segments replacedMem replacedTables.length 76 [77, 355, 377] 381 := by
    have he : segEnd replacedMem 77 = 354 := by decide +kernel
    refine .segment (at' he (by decide +kernel) (by omega)) ⟨by decide +kernel, fun e => ?_, fun e => ?_⟩
      (by rw [he]; exact h355)
    · exact absurd e (by decide +kernel)
    · exact absurd e (by decide +kernel)
  have dqt {q n : Nat} (hn : (segLenAt replacedMem q).toNat = n) (hlt : n ≤ 67) (h0 : replacedMem (q + 3) >>> 4 = 0)
      (hm : replacedMem q = mDqt) : GoesOn replacedMem q := by
    refine ⟨by rw [hm]; decide, fun _ k hk => ?_, fun e => ?_⟩
    · obtain rfl : k = 0 := by omega
      exact h0
    · rw [hm] at e
      exact absurd e (by decide)
  have h8 : Segments replacedMem replacedTables.length 7 [8, 77, 355, 377] 381 := by
    have he : segEnd replacedMem 8 = 76 := by decide +kernel
    exact .segment (at' he (by decide +kernel) (by omega))
      (dqt (n := 67) (by decide +kernel) (by decide) (by decide +kernel) (by decide +kernel)) (by rw [he]; exact h77)
  have he : segEnd replacedMem 3 = 7 := by decide +kernel
  exact .segment (at' he (by decide +kernel) (by omega))
    (dqt (n := 3) (by decide +kernel) (by decide) (by decide +kernel) (by decide +kernel)) (by rw [he]; exact h8)

theorem quantTables_replaced : quantTables replacedMem [3, 8, 77, 355, 377] = [⟨6, 7⟩, ⟨11, 76⟩] := by
  simp only [quantTables, List.flatMap_cons, List.flatMap_nil]
  rw [tablesAt_one (e := 7) (by decide +kernel) (by decide +kernel) (by decide) (by decide) (by decide),
    tablesAt_one (e := 76) (by decide +kernel) (by decide +kernel) (by decide) (by decide) (by decide),
    tablesAt_of_ne (by decide +kernel), tablesAt_of_ne (by decide +kernel), tablesAt_of_ne (by decide +kernel)]
  rfl

theorem huffmanTables_replaced :
    huffmanTables replacedMem [3, 8, 77, 355, 377] = [⟨80, 354⟩, ⟨358, 376⟩] := by
  have h80 : huffmanSize replacedMem (77 + 3) = 274 := by decide +kernel
  have h358 : huffmanSize replacedMem (355 + 3) = 18 := by decide +kernel
  simp only [huffmanTables, List.flatMap_cons, List.flatMap_nil]
  rw [tablesAt_of_ne (by decide +kernel), tablesAt_of_ne (by decide +kernel),
    tablesAt_one (e := 354) (by decide +kernel) (by decide +kernel) (by decide) (by rw [h80]; decide)
      (by rw [h80]),
    tablesAt_one (e := 376) (by decide +kernel) (by decide +kernel) (by decide) (by rw [h358]; decide)
      (by rw [h358]),
    tablesAt_of_ne (by decide +kernel)]
  rfl

theorem replaced_parse : ∃ jpeg, (parseJpeg replacedTables.length).run replacedMem = some jpeg :=
  Option.isSome_iff_exists.1 (by decide +kernel)

theorem tables_inside_iff_sample :
    ∃ jpeg, (parseJpeg replacedTables.length).run replacedMem = some jpeg ∧
      TablesInside replacedMem replacedTables.length [3, 8, 77, 355, 377] jpeg := by
  obtain ⟨jpeg, hparse⟩ := replaced_parse
  obtain ⟨qs, e, hsegs, hiff⟩ := tables_inside_iff hparse
  obtain ⟨rfl, -⟩ := hsegs.unique replaced_segments
  refine ⟨jpeg, hparse, hiff.2 ⟨?_, ?_⟩⟩
  · rw [quantTables_replaced]
    refine replaced_cons (fun _ => ⟨⟨11, 76⟩, List.mem_singleton_self _, by decide +kernel⟩) ?_
    exact replaced_cons (fun h => absurd (by decide +kernel) h) replaced_nil
  · rw [huffmanTables_replaced]
    refine replaced_cons (fun _ => ⟨⟨358, 376⟩, List.mem_singleton_self _, by decide +kernel⟩) ?_
    exact replaced_cons (fun h => absurd (by decide +kernel) h) replaced_nil

/-- A quantization table of which the segment holds the id only, and a scan header
without components. -/
def cutTable : List UInt8 := [0xff, mSoi, 0xff, mDqt, 0, 3, 0, 0xff, mSos, 0, 3, 0, 0, 0, 0]

def cutMem (i : Nat) : UInt8 := cutTable.getD i 0

/-- The parser keeps the table: its coefficients start where the segment ends, and
run past the end of the buffer. -/
theorem not_tables_inside :
    ∃ jpeg, (parseJpeg cutTable.length).run cutMem = some jpeg ∧ jpeg.quant 0 = some 7 ∧ segEnd cutMem 3 = 7 ∧
      ∀ qs, ¬ TablesInside cutMem cutTable.length qs jpeg := by
  have hsome : ((parseJpeg cutTable.length).run cutMem).any (·.quant 0 = some 7) = true := by decide +kernel
  obtain ⟨jpeg, hparse, hquant⟩ := (Option.any_eq_true _ _).1 hsome
  refine ⟨jpeg, hparse, of_decide_eq_true hquant, by decide +kernel, ?_⟩
  intro qs h
  obtain ⟨t, -, hpt, hwhole, q, -, hdef⟩ := h.quant 0 7 (of_decide_eq_true hquant)
  have hstop : t.off + 65 ≤ t.stop := hwhole
  have hlt : segEnd cutMem q < 15 := hdef.lt
  rw [← hdef.stop] at hlt
  omega

/-! ## Symbols inside their slot -/

/-- Of each of the tables 0 to 3 every byte is written inside `buffer`, and the
symbols, which `memcpy` puts behind the first 1024 bytes, in the slot of the table. -/
def SymbolsInSlot (mem : Nat → UInt8) (jpeg : JpegT) : Prop :=
  ∀ k : Fin 8, k < 4 → ∀ p, jpeg.huffman k = some p → ∀ w ∈ (huffmanWrites k p).run mem,
    w.1 < 4 * 512 ∧ (1024 ≤ w.1 → 4 * (256 + 64 * k.val) ≤ w.1 ∧ w.1 < 4 * (256 + 64 * k.val) + 256)

theorem mem_countWrites {i : Nat} {num : Nat → Nat} {w : Nat × UInt8} (h : w ∈ countWrites i num) :
    i * 64 + 32 ≤ w.1 ∧ w.1 < i * 64 + 48 := by
  obtain ⟨j, hj, rfl⟩ := List.mem_map.1 h
  have := List.mem_range.1 hj
  dsimp only
  omega

theorem mem_codeWrites {i : Nat} {num : Nat → Nat} {w : Nat × UInt8} (h : w ∈ codeWrites i num) :
    i * 64 ≤ w.1 ∧ w.1 < i * 64 + 32 := by
  obtain ⟨j, hj, hw⟩ := List.mem_flatMap.1 h
  have := List.mem_range.1 hj
  rw [halfWord, List.mem_pair] at hw
  rcases hw with rfl | rfl
  · dsimp only
    omega
  · dsimp only
    omega

/-- A round writes inside its slot iff the counts sum to at most 256. -/
theorem huffmanWrites_in_slot {k off : Nat} (hk : k < 4) :
    (∀ w ∈ (huffmanWrites k off).run mem,
      w.1 < 4 * 512 ∧ (1024 ≤ w.1 → 4 * (256 + 64 * k) ≤ w.1 ∧ w.1 < 4 * (256 + 64 * k) + 256)) ↔
        before (numAt mem off) 16 ≤ 256 := by
  rw [huffmanWrites_run]
  constructor
  · intro h
    by_contra hlt
    have hmem : (4 * (256 + 64 * k) + 256, mem (off + 16 + 256)) ∈
        symbolWrites mem k off (before (numAt mem off) 16) :=
      List.mem_map.2 ⟨256, List.mem_range.2 (Nat.not_le.1 hlt), rfl⟩
    have hslot := (h _ (List.mem_append_left _ (List.mem_append_right _ hmem))).2
    dsimp only at hslot
    omega
  · intro hle w hw
    rcases List.mem_append.1 hw with hw | hw
    · rcases List.mem_append.1 hw with hw | hw
      · have := mem_countWrites hw
        omega
      · obtain ⟨j, hj, rfl⟩ := List.mem_map.1 hw
        have := List.mem_range.1 hj
        dsimp only
        omega
    · have := mem_codeWrites hw
      omega

/-- **Which buffers keep the symbols in their slot.** For every accepted buffer:
all writes to the buffer of 512 words are inside it, and the symbols of each table
inside the table's own 256 bytes, exactly when every Huffman table 0 to 3 with more
than 256 symbols is replaced by a later one of its id. -/
theorem symbols_in_slot_iff {jpeg : JpegT} (h : (parseJpeg len).run mem = some jpeg) :
    ∃ qs e, Segments mem len 2 qs e ∧
      (SymbolsInSlot mem jpeg ↔
        Replaced (huffmanId mem) (fun t => huffmanId mem t.off < 4 ∧ 256 < symbols mem t.off)
          (huffmanTables mem qs)) := by
  obtain ⟨-, -, qs, e, hsegs, hrec⟩ := segments_of_parse h
  refine ⟨qs, e, hsegs, ?_⟩
  have hall := forall_ptr_iff (place_eq_lastTable hrec.huffman) fun t =>
    ¬ (huffmanId mem t.off < 4 ∧ 256 < symbols mem t.off)
  simp only [not_not] at hall
  rw [← hall]
  constructor
  · intro hin k p hp
    obtain ⟨t, ht, rfl⟩ := Option.map_eq_some_iff.1 ((place_eq_lastTable hrec.huffman k).symm.trans hp)
    refine ⟨t, ht, rfl, ?_⟩
    rintro ⟨hk, hsum⟩
    rw [(lastWith_mem ht).2] at hk
    have hle := (huffmanWrites_in_slot hk).1 (hin k hk (t.off + 1) hp)
    rw [← symbols_eq] at hle
    omega
  · intro hall k hk p hp
    obtain ⟨t, ht, rfl, hgood⟩ := hall k p hp
    refine (huffmanWrites_in_slot hk).2 ?_
    rw [← symbols_eq]
    by_contra hsum
    refine hgood ⟨?_, by omega⟩
    rw [(lastWith_mem ht).2]
    exact hk

theorem symbols_in_slot_iff_sample :
    ∃ jpeg, (parseJpeg replacedTables.length).run replacedMem = some jpeg ∧ symbols replacedMem 80 = 257 ∧
      SymbolsInSlot replacedMem jpeg := by
  obtain ⟨jpeg, hparse⟩ := replaced_parse
  obtain ⟨qs, e, hsegs, hiff⟩ := symbols_in_slot_iff hparse
  obtain ⟨rfl, -⟩ := hsegs.unique replaced_segments
  refine ⟨jpeg, hparse, by decide +kernel, hiff.2 ?_⟩
  rw [huffmanTables_replaced]
  refine replaced_cons (fun _ => ⟨⟨358, 376⟩, List.mem_singleton_self _, by decide +kernel⟩) ?_
  exact replaced_cons (fun h => absurd h (by decide +kernel)) replaced_nil

/-- A Huffman table of 257 symbols, and a scan header without components. -/
def longTable : List UInt8 :=
  [0xff, mSoi, 0xff, mDht, 1, 20, 0, 255, 2] ++ List.replicate (14 + 257) 0 ++ [0xff, mSos, 0, 3, 0, 0, 0, 0]

def longMem (i : Nat) : UInt8 := longTable.getD i 0

theorem long_parse :
    ∃ jpeg, (parseJpeg longTable.length).run longMem = some jpeg ∧ jpeg.huffman 0 = some 7 := by
  have hsome : ((parseJpeg longTable.length).run longMem).any (·.huffman 0 = some 7) = true := by decide +kernel
  obtain ⟨jpeg, hparse, hhuffman⟩ := (Option.any_eq_true _ _).1 hsome
  exact ⟨jpeg, hparse, of_decide_eq_true hhuffman⟩

/-- Symbol 256 is written at the start of the next slot. -/
theorem not_symbols_in_slot :
    ∃ jpeg, (parseJpeg longTable.length).run longMem = some jpeg ∧ symbols longMem 6 = 257 ∧ jpeg.huffman 0 = some 7 ∧
      ¬ SymbolsInSlot longMem jpeg := by
  obtain ⟨jpeg, hparse, hhuffman⟩ := long_parse
  have hsum : symbols longMem 6 = 257 := by decide +kernel
  refine ⟨jpeg, hparse, hsum, hhuffman, ?_⟩
  intro h
  have hle := (huffmanWrites_in_slot (k := 0) (by decide)).1 (h 0 (by decide) 7 hhuffman)
  rw [← symbols_eq 6, hsum] at hle
  exact absurd hle (by decide)

end Camview
