/-
Which tables a decode uses. `parse_jpeg` records the tables each component selects,
`qt` in the frame header and `ht_dc` and `ht_ac` in the scan header;
`set_quantization_tables` programs the tables 0 and 1, and `set_huffman_tables`
those of the destinations 0 and 1, whatever the headers select.

`tables_follow_iff`: what is programmed is what the frame selects when the selected
tables have the contents of these, and not otherwise.
-/
import Camview.DecodeSession
import Camview.HuffmanWrites

namespace Camview.Hw

open Reader Canonical

variable {mem : Nat → UInt8} {jpeg : JpegT} {s : State} {f : Frame}

/-! ## Selected tables -/

/-- The quantization table a component selects. -/
def selectedQuant (jpeg : JpegT) (c : Fin 3) : Option Nat :=
  if h : (jpeg.comp c).qt.toNat < 4 then jpeg.quant ⟨(jpeg.comp c).qt.toNat, h⟩ else none

/-- The Huffman table of a destination, of class 0 (DC) or 1 (AC). -/
def huffmanAt (jpeg : JpegT) (dest : UInt8) (cls : Fin 2) : Option Nat :=
  if h : 2 * dest.toNat + cls.val < 8 then jpeg.huffman ⟨2 * dest.toNat + cls.val, h⟩ else none

/-- The Huffman tables components 0 and 1 select: a DC/AC pair each. -/
def selectedHuffman (jpeg : JpegT) : Fin 4 → Option Nat
  | 0 => huffmanAt jpeg (jpeg.comp 0).htDc 0
  | 1 => huffmanAt jpeg (jpeg.comp 0).htAc 1
  | 2 => huffmanAt jpeg (jpeg.comp 1).htDc 0
  | 3 => huffmanAt jpeg (jpeg.comp 1).htAc 1

/-- The coefficients from `off` on, numbered from `base`. -/
def coeffAccesses (mem : Nat → UInt8) (base off : Nat) : List Access :=
  (List.range 64).map fun i => .writel (UInt32.ofNat (base + i) <<< 8 ||| (mem (off + i)).toUInt32) veMpegIqMinInput

/-- Is it a write to this register? -/
def Access.isWriteTo (reg : Nat) : Access → Bool
  | .writel _ r => r == reg
  | _ => false

/-- The state when the frame is copied: the display is initialised. -/
def displayed (f : Frame) (jpeg : JpegT) (s : State) : State :=
  if s.displayInitialized then s else hwInitDisplay f jpeg s

/-- The frame is copied and passed to `hw_decode_jpeg`. -/
structure Passed (s : State) (f : Frame) (jpeg : JpegT) : Prop where
  parsed : f.parse = some jpeg
  display : s.displayInitialized = true ∨ getFormat jpeg ≠ 0 ∧ f.displayFails = false

/-- The frame gets to the tables: `hw_decode_jpeg` goes on with it. -/
structure Programs (s : State) (f : Frame) (jpeg : JpegT) : Prop extends Passed s f jpeg where
  usable : ((displayed f jpeg s).select f.bufferNumber).Usable
  size : (setSize jpeg).isSome

/-- The tables programmed for the frame are those it selects. -/
structure TablesFollow (s : State) (f : Frame) (jpeg : JpegT) : Prop where
  quant : ∃ accesses q0 q1, (hwDecodeJpegMain f s).decoded = s.decoded ++ [(jpeg, accesses)] ∧
    selectedQuant jpeg 0 = some q0 ∧ selectedQuant jpeg 1 = some q1 ∧
    accesses.filter (Access.isWriteTo veMpegIqMinInput) = coeffAccesses f.data 64 q0 ++ coeffAccesses f.data 0 q1
  huffman : ∀ i : Fin 4, (roundWrites i (jpeg.huffman (i.castLE (by decide)))).run f.data =
    (roundWrites i (selectedHuffman jpeg i)).run f.data

/-! ## Contents -/

/-- Two quantization tables are there and have the same coefficients. -/
def SameQuant (mem : Nat → UInt8) (p q : Option Nat) : Prop :=
  ∃ a b, p = some a ∧ q = some b ∧ ∀ i < 64, mem (a + i) = mem (b + i)

/-- Two Huffman tables have the same counts and symbols, or neither is there. -/
inductive SameHuffman (mem : Nat → UInt8) : Option Nat → Option Nat → Prop
  | none : SameHuffman mem none none
  | some : (∀ j < 16 + before (numAt mem a) 16, mem (a + j) = mem (b + j)) → SameHuffman mem (some a) (some b)

/-- The tables that are programmed have the contents of those the frame selects. -/
structure SameContents (mem : Nat → UInt8) (jpeg : JpegT) : Prop where
  quant0 : SameQuant mem (jpeg.quant 0) (selectedQuant jpeg 0)
  quant1 : SameQuant mem (jpeg.quant 1) (selectedQuant jpeg 1)
  huffman : ∀ i : Fin 4, SameHuffman mem (jpeg.huffman (i.castLE (by decide))) (selectedHuffman jpeg i)

theorem writeCoeffs_run (base off : Nat) : (writeCoeffs base off).run mem = coeffAccesses mem base off := by
  rw [writeCoeffs, run_mapM]
  rfl

theorem low_byte (x : UInt32) (c : UInt8) : (x <<< 8 ||| c.toUInt32).toUInt8 = c := by
  apply UInt8.toBitVec_inj.1
  ext i hi
  simp [UInt32.toBitVec_shiftLeft]

theorem length_coeffAccesses (base off : Nat) : (coeffAccesses mem base off).length = 64 := List.length_map _

/-- The writes tell the coefficients. -/
theorem coeffAccesses_inj {base a b : Nat} :
    coeffAccesses mem base a = coeffAccesses mem base b ↔ ∀ i < 64, mem (a + i) = mem (b + i) := by
  unfold coeffAccesses
  rw [List.map_inj_left]
  constructor
  · intro h i hi
    have heq := h i (List.mem_range.2 hi)
    rw [Access.writel.injEq] at heq
    rw [← low_byte (UInt32.ofNat (base + i)) (mem (a + i)), heq.1, low_byte]
  · intro h i hi
    rw [h i (List.mem_range.1 hi)]

/-- What `set_quantization_tables` writes. -/
theorem setQuantizationTables_eq_some {accesses : List Access} :
    (setQuantizationTables jpeg).run mem = some accesses ↔
      ∃ p0 p1, jpeg.quant 0 = some p0 ∧ jpeg.quant 1 = some p1 ∧
        coeffAccesses mem 64 p0 ++ coeffAccesses mem 0 p1 = accesses := by
  unfold setQuantizationTables
  cases jpeg.quant 0 with
  | none => simp
  | some p0 =>
    cases jpeg.quant 1 with
    | none => simp
    | some p1 => simp [writeCoeffs_run]

/-- The numbers of shorter codes, modulo 256, tell the counts they are sums of. -/
theorem numAt_congr {i p q : Nat} (h : countWrites i (numAt mem p) = countWrites i (numAt mem q)) :
    ∀ j < 15, numAt mem p j = numAt mem q j := by
  have hmod : ∀ j < 16, before (numAt mem p) j % 256 = before (numAt mem q) j % 256 := by
    intro j hj
    have heq := List.map_inj_left.1 h j (List.mem_range.2 hj)
    rw [Prod.mk.injEq] at heq
    have hbyte := congrArg UInt8.toNat heq.2
    rwa [UInt8.toNat_ofNat', UInt8.toNat_ofNat'] at hbyte
  intro j hj
  have h0 := hmod j (by omega)
  have h1 := hmod (j + 1) (by omega)
  rw [before, before] at h1
  have hp : numAt mem p j < 256 := (mem (p + j)).toNat_lt
  have hq : numAt mem q j < 256 := (mem (q + j)).toNat_lt
  omega

/-- The writes of a round tell the table. -/
theorem huffmanWrites_inj {i p q : Nat} :
    (huffmanWrites i p).run mem = (huffmanWrites i q).run mem ↔
      ∀ j < 16 + before (numAt mem p) 16, mem (p + j) = mem (q + j) := by
  rw [huffmanWrites_run, huffmanWrites_run, List.append_assoc, List.append_assoc]
  constructor
  · intro h
    have hlen (num : Nat → Nat) : (countWrites i num).length = 16 := List.length_map _
    obtain ⟨hcount, hrest⟩ := List.append_inj h (by rw [hlen, hlen])
    have hsum : before (numAt mem p) 16 = before (numAt mem q) 16 := by
      have hlens := congrArg List.length hrest
      rw [List.length_append, List.length_append, length_codeWrites, length_codeWrites] at hlens
      simpa [symbolWrites] using hlens
    have hsymbols := (List.append_inj hrest (by simp [symbolWrites, hsum])).1
    have hnum : ∀ j < 16, numAt mem p j = numAt mem q j := by
      intro j hj
      by_cases e : j = 15
      · -- The last count is what is missing of the sum.
        have h15 : before (numAt mem p) 15 = before (numAt mem q) 15 := before_congr (numAt_congr hcount)
        have hlast : before (numAt mem p) 15 + numAt mem p 15 = before (numAt mem q) 15 + numAt mem q 15 := hsum
        rw [e]
        omega
      · exact numAt_congr hcount j (by omega)
    intro j hj
    by_cases hj16 : j < 16
    · exact UInt8.toNat_inj.1 (hnum j hj16)
    · rw [symbolWrites, symbolWrites, ← hsum, List.map_inj_left] at hsymbols
      have heq := hsymbols (j - 16) (List.mem_range.2 (by omega))
      rw [Prod.mk.injEq, show p + 16 + (j - 16) = p + j by omega, show q + 16 + (j - 16) = q + j by omega] at heq
      exact heq.2
  · intro h
    have hnum : ∀ j < 16, numAt mem p j = numAt mem q j := by
      intro j hj
      exact congrArg UInt8.toNat (h j (by omega))
    obtain ⟨hcount, hcode⟩ := writes_congr (i := i) hnum
    rw [hcount, hcode, ← before_congr hnum, symbolWrites, symbolWrites]
    congr 2
    refine List.map_congr_left fun k hk => ?_
    have hk' := List.mem_range.1 hk
    rw [Nat.add_assoc, Nat.add_assoc, h (16 + k) (by omega)]

theorem roundWrites_inj {i : Nat} {p q : Option Nat} :
    (roundWrites i p).run mem = (roundWrites i q).run mem ↔ SameHuffman mem p q := by
  have hne (off : Nat) : (huffmanWrites i off).run mem ≠ [] := by
    rw [huffmanWrites_run]
    exact List.append_ne_nil_of_left_ne_nil (List.append_ne_nil_of_left_ne_nil (List.cons_ne_nil _ _) _) _
  cases p with
  | none =>
    cases q with
    | none => exact iff_of_true rfl .none
    | some q =>
      refine iff_of_false (fun h => hne q h.symm) ?_
      rintro ⟨⟩
  | some p =>
    cases q with
    | none =>
      refine iff_of_false (hne p) ?_
      rintro ⟨⟩
    | some q =>
      refine huffmanWrites_inj.trans ⟨.some, ?_⟩
      intro h
      cases h with
      | some h => exact h

/-! ## A frame -/

theorem filter_coeffAccesses (base off : Nat) :
    (coeffAccesses mem base off).filter (Access.isWriteTo veMpegIqMinInput) = coeffAccesses mem base off := by
  rw [List.filter_eq_self]
  intro a ha
  obtain ⟨i, -, rfl⟩ := List.mem_map.1 ha
  rfl

theorem filter_coeffAccesses_ne {reg : Nat} (h : reg ≠ veMpegIqMinInput) (base off : Nat) :
    (coeffAccesses mem base off).filter (Access.isWriteTo reg) = [] := by
  rw [List.filter_eq_nil_iff]
  intro a ha
  obtain ⟨i, -, rfl⟩ := List.mem_map.1 ha
  exact fun e => h (eq_of_beq e).symm

theorem filter_setHuffmanTables {reg : Nat} (h : reg ≠ veMpegRamWriteData) :
    ((setHuffmanTables jpeg).run mem).filter (Access.isWriteTo reg) = [] := by
  rw [setHuffmanTables, run_bind, run_pure, List.filter_eq_nil_iff]
  intro a ha
  obtain ⟨k, -, rfl⟩ := List.mem_map.1 ha
  exact fun e => h (eq_of_beq e).symm

theorem filter_setFormat (reg : Nat) : (setFormat jpeg).filter (Access.isWriteTo reg) = [] := by
  unfold setFormat
  repeat' split
  all_goals rfl

theorem filter_setSize {reg : Nat} (hreg : reg ≠ veMpegJpegSize) {size : List Access} (h : setSize jpeg = some size) :
    size.filter (Access.isWriteTo reg) = [] := by
  unfold setSize at h
  split at h
  · cases h
  · cases h
    rw [List.filter_eq_nil_iff]
    intro a ha
    rw [List.mem_singleton.1 ha]
    exact fun e => hreg (eq_of_beq e).symm

/-- The coefficients a decode writes are those `set_quantization_tables` does. -/
theorem coeffs_of_decode {out : Output} {phyInput : UInt32} (hu : out.Usable) (hs : (setSize jpeg).isSome)
    {coeffs : List Access} :
    (∃ accesses, (hwDecodeJpeg out phyInput jpeg).run mem = some accesses ∧
        accesses.filter (Access.isWriteTo veMpegIqMinInput) = coeffs) ↔
      (setQuantizationTables jpeg).run mem = some coeffs := by
  obtain ⟨size, hsize⟩ := Option.isSome_iff_exists.1 hs
  rw [hwDecodeJpeg, if_neg (not_not.2 hu), hsize]
  dsimp only
  rw [run_bind]
  cases hq : (setQuantizationTables jpeg).run mem with
  | none => simp
  | some quant =>
    have hfilter : quant.filter (Access.isWriteTo veMpegIqMinInput) = quant := by
      obtain ⟨p0, p1, -, -, rfl⟩ := setQuantizationTables_eq_some.1 hq
      rw [List.filter_append, filter_coeffAccesses, filter_coeffAccesses]
    dsimp only
    rw [run_bind, run_pure]
    simp only [Option.some.injEq, exists_eq_left', List.filter_append, filter_setFormat, hfilter,
      filter_setSize (show veMpegIqMinInput ≠ veMpegJpegSize by decide) hsize,
      filter_setHuffmanTables (show veMpegIqMinInput ≠ veMpegRamWriteData by decide)]
    -- No other register in the rest of the accesses is that of the coefficients.
    show [] ++ [] ++ [] ++ [] ++ [] ++ quant ++ [] ++ [] ++ [] = coeffs ↔ quant = coeffs
    simp only [List.nil_append, List.append_nil]

theorem decoded_decodeInto {accesses : List Access} :
    (decodeInto f jpeg s).decoded = s.decoded ++ [(jpeg, accesses)] ↔
      (hwDecodeJpeg (s.select f.bufferNumber) f.phyInput jpeg).run f.data = some accesses := by
  cases hr : (hwDecodeJpeg (s.select f.bufferNumber) f.phyInput jpeg).run f.data with
  | none =>
    rw [decodeInto_none hr]
    simp [getBuffer]
  | some accesses' =>
    rw [decodeInto_some hr]
    simp

theorem main_of_passed (h : Passed s f jpeg) : hwDecodeJpegMain f s = decodeInto f jpeg (displayed f jpeg s) := by
  unfold hwDecodeJpegMain displayed
  rw [h.parsed]
  dsimp only
  cases hi : s.displayInitialized with
  | true => rfl
  | false =>
    obtain ⟨hformat, hfails⟩ := h.display.resolve_left (by rw [hi]; exact Bool.noConfusion)
    rw [if_neg Bool.noConfusion, if_neg hformat, hfails]
    rfl

variable (jpeg f s) in
theorem displayed_decoded : (displayed f jpeg s).decoded = s.decoded := by
  unfold displayed
  split
  · rfl
  · rfl

theorem decoded_of_passed (h : Passed s f jpeg) {accesses : List Access} :
    (hwDecodeJpegMain f s).decoded = s.decoded ++ [(jpeg, accesses)] ↔
      (hwDecodeJpeg ((displayed f jpeg s).select f.bufferNumber) f.phyInput jpeg).run f.data = some accesses := by
  rw [main_of_passed h, ← displayed_decoded jpeg s f, decoded_decodeInto]

/-- The coefficients a frame has written are those of the tables 0 and 1. -/
theorem coeffs_of_programs (h : Programs s f jpeg) {q0 q1 : Nat} :
    (∃ accesses, (hwDecodeJpegMain f s).decoded = s.decoded ++ [(jpeg, accesses)] ∧
      accesses.filter (Access.isWriteTo veMpegIqMinInput) = coeffAccesses f.data 64 q0 ++ coeffAccesses f.data 0 q1) ↔
      ∃ p0 p1, jpeg.quant 0 = some p0 ∧ jpeg.quant 1 = some p1 ∧ (∀ i < 64, f.data (p0 + i) = f.data (q0 + i)) ∧
        ∀ i < 64, f.data (p1 + i) = f.data (q1 + i) := by
  simp only [decoded_of_passed h.toPassed]
  rw [coeffs_of_decode h.usable h.size, setQuantizationTables_eq_some]
  refine exists_congr fun p0 => exists_congr fun p1 => and_congr_right fun _ => and_congr_right fun _ => ?_
  rw [← coeffAccesses_inj, ← coeffAccesses_inj]
  constructor
  · intro heq
    exact List.append_inj heq (by rw [length_coeffAccesses, length_coeffAccesses])
  · rintro ⟨h0, h1⟩
    rw [h0, h1]

/-- **Which frames have their own tables programmed.** For every frame that gets to
the tables: the coefficients written first, with index 64 and on, are those of the
table component 0 selects, and those with index 0 and on those of the table
component 1 selects, neither of them missing; and the Huffman tables written are
the DC/AC pairs the two components select; exactly when the frame's tables 0 and 1,
and its DC/AC pairs 0 and 1, have the contents of the selected ones. -/
theorem tables_follow_iff (h : Programs s f jpeg) : TablesFollow s f jpeg ↔ SameContents f.data jpeg := by
  constructor
  · intro hfollow
    obtain ⟨accesses, q0, q1, hdecoded, hs0, hs1, hfilter⟩ := hfollow.quant
    obtain ⟨p0, p1, hp0, hp1, hsame0, hsame1⟩ := (coeffs_of_programs h).1 ⟨accesses, hdecoded, hfilter⟩
    refine ⟨⟨p0, q0, hp0, hs0, hsame0⟩, ⟨p1, q1, hp1, hs1, hsame1⟩, ?_⟩
    intro i
    exact roundWrites_inj.1 (hfollow.huffman i)
  · rintro ⟨⟨p0, q0, hp0, hs0, hsame0⟩, ⟨p1, q1, hp1, hs1, hsame1⟩, hhuffman⟩
    obtain ⟨accesses, hdecoded, hfilter⟩ := (coeffs_of_programs h).2 ⟨p0, p1, hp0, hp1, hsame0, hsame1⟩
    refine ⟨⟨accesses, q0, q1, hdecoded, hs0, hs1, hfilter⟩, ?_⟩
    intro i
    exact roundWrites_inj.2 (hhuffman i)

/-- A picture with the tables where the engine has them: Y selects the tables 0, Cb and Cr
select the tables 1. Every Huffman table has one code. -/
def ownTables : List UInt8 :=
  [0xff, mSoi] ++
    [0xff, mDqt, 0, 132] ++ 0 :: List.replicate 64 1 ++ 1 :: List.replicate 64 2 ++
    [0xff, mSof0, 0, 17, 8, 0, 16, 0, 16, 3, 1, 0x21, 0, 2, 0x11, 1, 3, 0x11, 1] ++
    [0xff, mDht, 0, 74] ++ [0x00, 0x10, 0x01, 0x11].flatMap (fun id => id :: 1 :: List.replicate 15 0 ++ [id]) ++
    [0xff, mSos, 0, 12, 3, 1, 0x00, 2, 0x11, 3, 0x11, 0, 63, 0] ++ [0]

def ownFrame : Frame :=
  { pictureFrame 16 2 with data := fun i => ownTables.getD i 0, dataLen := ownTables.length }

theorem sameQuant_refl {p : Option Nat} (h : p.isSome = true) : SameQuant mem p p := by
  obtain ⟨a, rfl⟩ := Option.isSome_iff_exists.1 h
  exact ⟨a, a, rfl, rfl, fun _ _ => rfl⟩

theorem sameHuffman_refl : (p : Option Nat) → SameHuffman mem p p
  | none => .none
  | some _ => .some fun _ _ => rfl

theorem tables_follow_iff_sample :
    ∃ jpeg, ownFrame.parse = some jpeg ∧ (jpeg.comp 1).qt = 1 ∧ (∀ k < 4, (jpeg.huffman k).isSome) ∧
      TablesFollow initState ownFrame jpeg := by
  have hsome : ownFrame.parse.any (fun jpeg => (getFormat jpeg ≠ 0 ∧
      ((displayed ownFrame jpeg initState).select 2).Usable ∧ (setSize jpeg).isSome) ∧
      ((jpeg.comp 1).qt = 1 ∧ ∀ k < 4, (jpeg.huffman k).isSome) ∧
      (jpeg.quant 0 = selectedQuant jpeg 0 ∧ jpeg.quant 1 = selectedQuant jpeg 1) ∧
      ((jpeg.quant 0).isSome ∧ (jpeg.quant 1).isSome) ∧
      ∀ i : Fin 4, jpeg.huffman (i.castLE (by decide)) = selectedHuffman jpeg i) = true := by
    decide +kernel
  obtain ⟨jpeg, hparse, h⟩ := (Option.any_eq_true _ _).1 hsome
  obtain ⟨⟨hformat, hu, hs⟩, ⟨hqt, htables⟩, ⟨hq0, hq1⟩, ⟨h0, h1⟩, hhuffman⟩ := of_decide_eq_true h
  refine ⟨jpeg, hparse, hqt, htables, (tables_follow_iff ⟨⟨hparse, .inr ⟨hformat, rfl⟩⟩, hu, hs⟩).2 ⟨?_, ?_, ?_⟩⟩
  · rw [← hq0]
    exact sameQuant_refl h0
  · rw [← hq1]
    exact sameQuant_refl h1
  · intro i
    rw [hhuffman i]
    exact sameHuffman_refl _

/-- A picture whose only component selects table 1, of twos; table 0 is of ones. -/
def otherTable : List UInt8 :=
  [0xff, mSoi] ++
    [0xff, mDqt, 0, 132] ++ 0 :: List.replicate 64 1 ++ 1 :: List.replicate 64 2 ++
    [0xff, mSof0, 0, 11, 8, 0, 16, 0, 16, 1, 1, 0x11, 1] ++
    [0xff, mSos, 0, 8, 1, 1, 0, 0, 63, 0] ++ [0]

def otherFrame : Frame :=
  { pictureFrame 16 2 with data := fun i => otherTable.getD i 0, dataLen := otherTable.length }

/-- The first coefficients written are those of table 0. -/
theorem not_tables_follow :
    ∃ jpeg, Programs initState otherFrame jpeg ∧ (jpeg.comp 0).qt = 1 ∧ ¬ TablesFollow initState otherFrame jpeg := by
  have hsome : otherFrame.parse.any (fun jpeg => (getFormat jpeg ≠ 0 ∧
      ((displayed otherFrame jpeg initState).select 2).Usable ∧ (setSize jpeg).isSome) ∧
      (jpeg.comp 0).qt = 1 ∧ jpeg.quant 0 = some 7 ∧ selectedQuant jpeg 0 = some 72) = true := by
    decide +kernel
  obtain ⟨jpeg, hparse, h⟩ := (Option.any_eq_true _ _).1 hsome
  obtain ⟨⟨hformat, hu, hs⟩, hqt, hq0, hsel⟩ := of_decide_eq_true h
  have hp : Programs initState otherFrame jpeg := ⟨⟨hparse, .inr ⟨hformat, rfl⟩⟩, hu, hs⟩
  refine ⟨jpeg, hp, hqt, ?_⟩
  intro hfollow
  obtain ⟨accesses, q0, q1, hdecoded, hs0, -, hfilter⟩ := hfollow.quant
  obtain ⟨p0, p1, hp0, -, hsame, -⟩ := (coeffs_of_programs hp).1 ⟨accesses, hdecoded, hfilter⟩
  rw [hsel] at hs0
  rw [hq0] at hp0
  cases hs0
  cases hp0
  exact absurd (hsame 0 (by decide)) (by decide)

end Camview.Hw
