/-
What `parse_jpeg` accepts. An accepted buffer is a sequence of segments up to the
scan (`Segments`), found where the parser looks for them; its tables are in the
record as the last of each id that a segment holds.

The parser follows the lengths and reads the headers, and compares neither with
the other: fill bytes may be missing, a length may be shorter than its own two
bytes, tables may run past their segment and headers may leave some of theirs.
-/
import Camview.JpegReads
import Camview.JpegStream
import Camview.LastWith
import Camview.Tiling

namespace Camview

open Reader

/-! ## Tables in a payload -/

/-- Tables of `size` bytes laid end to end from `off` on: where those start that
start before `stop`. -/
def tablesFrom (size : Nat → Nat) (off stop : Nat) : List Nat :=
  if off < stop ∧ 0 < size off then off :: tablesFrom size (off + size off) stop else []
termination_by stop - off

/-- An 8-bit quantization table and its id. -/
def quantSize (_ : Nat) : Nat := 65

/-- A Huffman table and its id. -/
def huffmanSize (mem : Nat → UInt8) (off : Nat) : Nat := 17 + symbols mem off

/-- A table: where its id is, and the end of the segment it starts in. -/
structure Table where
  off : Nat
  stop : Nat
deriving DecidableEq, Repr

/-- The table ends in its segment. -/
def Table.Whole (size : Nat → Nat) (t : Table) : Prop := t.off + size t.off ≤ t.stop

instance (size : Nat → Nat) (t : Table) : Decidable (t.Whole size) := inferInstanceAs (Decidable (_ ≤ _))

/-- The entry of `quant` for the table at `off`. -/
def quantId (mem : Nat → UInt8) (off : Nat) : Fin 4 := Fin.ofNat 4 (mem off &&& 0x03).toNat

/-- The entry of `huffman` for the table at `off`. -/
def huffmanId (mem : Nat → UInt8) (off : Nat) : Fin 8 :=
  Fin.ofNat 8 ((mem off &&& 0x03) <<< 1 ||| (mem off &&& 0x10) >>> 4).toNat

/-- Where the segment ends whose marker is at `q`. -/
def segEnd (mem : Nat → UInt8) (q : Nat) : Nat := q + 1 + (segLenAt mem q).toNat

/-- The tables of a kind in the segment whose marker is at `q`. -/
def tablesAt (mem : Nat → UInt8) (marker : UInt8) (size : Nat → Nat) (q : Nat) : List Table :=
  if mem q = marker then (tablesFrom size (q + 3) (segEnd mem q)).map (⟨·, segEnd mem q⟩) else []

/-- The quantization tables of the segments with markers at `qs`, in order. -/
def quantTables (mem : Nat → UInt8) (qs : List Nat) : List Table := qs.flatMap (tablesAt mem mDqt quantSize)

/-- The Huffman tables of the segments with markers at `qs`, in order. -/
def huffmanTables (mem : Nat → UInt8) (qs : List Nat) : List Table :=
  qs.flatMap (tablesAt mem mDht (huffmanSize mem))

/-- The assignment a table of a segment comes to. -/
def place {κ : Type} [DecidableEq κ] (id : Nat → κ) (f : κ → Option Nat) (t : Table) : κ → Option Nat :=
  Function.update f (id t.off) (some (t.off + 1))

variable {mem : Nat → UInt8} {len : Nat}

/-! ## One segment -/

section Kept

variable {I : JpegT → Prop} {jpeg jpeg' : JpegT}

/-- What an assignment keeps, the loop over them keeps. -/
theorem kept_processDqt (hI : ∀ {jpeg}, I jpeg → ∀ id off, I (jpeg.setQuant id off)) {base : Nat} {size : Int}
    {pos : Nat}
    (h : (processDqt base size pos jpeg).run mem = some jpeg') (h0 : I jpeg) : I jpeg' := by
  induction pos, jpeg using processDqt.induct base size with
  | case1 pos jpeg hpos ih =>
    rw [processDqt, if_pos hpos, run_byte_bind] at h
    split at h
    · cases h
    rw [run_byte_bind] at h
    exact ih _ h (hI h0 _ _)
  | case2 pos jpeg hpos =>
    rw [processDqt, if_neg hpos] at h
    cases h
    exact h0

theorem kept_processDht (hI : ∀ {jpeg}, I jpeg → ∀ id off, I (jpeg.setHuffman id off)) {base : Nat} {size : Int}
    {pos : Nat} (h0 : I jpeg) : I ((processDht base size pos jpeg).run mem) := by
  induction pos, jpeg using processDht.induct base size with
  | case1 pos jpeg hpos ih =>
    rw [processDht, if_pos hpos, run_byte_bind, run_byte_bind]
    dsimp only
    rw [run_bind]
    exact ih _ _ _ (hI h0 _ _)
  | case2 pos jpeg hpos =>
    rw [processDht, if_neg hpos]
    exact h0

theorem kept_frameComps (hI : ∀ {jpeg}, I jpeg → ∀ id (b c qt : UInt8), I (jpeg.setComp id (b >>> 4) (c &&& 0x0f) qt))
    {pos i : Nat} (h : (frameComps pos i jpeg).run mem = some jpeg') (h0 : I jpeg) : I jpeg' := by
  generalize hk : (mem (pos + 7)).toNat - i = k
  induction k generalizing i jpeg with
  | zero =>
    rw [frameComps, run_byte_bind, if_neg (by omega)] at h
    cases h
    exact h0
  | succ k ih =>
    rw [frameComps, run_byte_bind, if_pos (by omega), run_byte_bind] at h
    split at h
    · rw [run_byte_bind, run_byte_bind, run_byte_bind] at h
      exact ih h (hI h0 _ _ _ _) (by omega)
    · cases h

theorem kept_scanComps (hI : ∀ {jpeg}, I jpeg → ∀ id htDc htAc, I (jpeg.setTables id htDc htAc)) {pos i : Nat}
    (h : (scanComps pos i jpeg).run mem = some jpeg') (h0 : I jpeg) : I jpeg' := by
  generalize hk : (mem (pos + 2)).toNat - i = k
  induction k generalizing i jpeg with
  | zero =>
    rw [scanComps, run_byte_bind, if_neg (by omega)] at h
    cases h
    exact h0
  | succ k ih =>
    rw [scanComps, run_byte_bind, if_pos (by omega), run_byte_bind] at h
    split at h
    · rw [run_byte_bind, run_byte_bind] at h
      exact ih h (hI h0 _ _ _) (by omega)
    · cases h

end Kept

theorem quant_of_processDqt {base : Nat} {size : Int} {stop : Nat} (hstop : (stop : Int) = base + size) {pos : Nat}
    {jpeg jpeg' : JpegT} (h : (processDqt base size pos jpeg).run mem = some jpeg') :
    jpeg'.quant =
      ((tablesFrom quantSize (base + pos) stop).map (⟨·, stop⟩)).foldl (place (quantId mem)) jpeg.quant := by
  induction pos, jpeg using processDqt.induct base size with
  | case1 pos jpeg hpos ih =>
    rw [processDqt, if_pos hpos, run_byte_bind] at h
    split at h
    · cases h
    rw [run_byte_bind] at h
    rw [tablesFrom, if_pos ⟨by omega, Nat.succ_pos 64⟩, List.map_cons, List.foldl_cons]
    exact ih _ h
  | case2 pos jpeg hpos =>
    rw [processDqt, if_neg hpos] at h
    cases h
    rw [tablesFrom, if_neg (by omega)]
    rfl

theorem huffman_of_processDht {base : Nat} {size : Int} {stop : Nat} (hstop : (stop : Int) = base + size) (pos : Nat)
    (jpeg : JpegT) :
    ((processDht base size pos jpeg).run mem).huffman =
      ((tablesFrom (huffmanSize mem) (base + pos) stop).map (⟨·, stop⟩)).foldl
        (place (huffmanId mem)) jpeg.huffman := by
  induction pos, jpeg using processDht.induct base size with
  | case1 pos jpeg hpos ih =>
    have hsize : huffmanSize mem (base + pos) = 17 + symbols mem (base + pos) := rfl
    rw [processDht, if_pos hpos, run_byte_bind, run_byte_bind]
    dsimp only
    rw [run_bind, tablesFrom, if_pos ⟨by omega, by omega⟩, List.map_cons, List.foldl_cons, hsize]
    have hh := ih (mem (base + pos)) (mem (base + pos)) (symbols mem (base + pos))
    rw [show base + (pos + 17 + symbols mem (base + pos)) = base + pos + (17 + symbols mem (base + pos)) by omega] at hh
    exact hh
  | case2 pos jpeg hpos =>
    rw [processDht, if_neg hpos, tablesFrom, if_neg (by omega)]
    rfl

/-- The tables of two records are the same. -/
def SameTables (jpeg jpeg' : JpegT) : Prop := jpeg'.quant = jpeg.quant ∧ jpeg'.huffman = jpeg.huffman

/-- A scan header goes through only if its ids are valid. -/
theorem validId_of_scanComps {pos i : Nat} {jpeg jpeg' : JpegT} (h : (scanComps pos i jpeg).run mem = some jpeg') :
    ∀ m, i ≤ m → m < (mem (pos + 2)).toNat → ValidId (mem (pos + 3 + 2 * m)) := by
  generalize hk : (mem (pos + 2)).toNat - i = k
  induction k generalizing i jpeg with
  | zero =>
    intro m hi hm
    omega
  | succ k ih =>
    rw [scanComps, run_byte_bind, if_pos (by omega), run_byte_bind] at h
    split at h
    · next hv =>
      rw [run_byte_bind, run_byte_bind] at h
      intro m hi hm
      by_cases e : m = i
      · rw [e]
        exact hv
      · exact ih h (by omega) m (by omega) hm
    · cases h

/-- The tables of a kind under another marker: none. -/
theorem tablesAt_of_ne {marker : UInt8} {size : Nat → Nat} {q : Nat} (h : mem q ≠ marker) :
    tablesAt mem marker size q = [] := if_neg h

/-- What the switch does to the tables of the record, and what it asks of a scan
header. -/
structure Switched (mem : Nat → UInt8) (q : Nat) (jpeg jpeg' : JpegT) (sos : Bool) : Prop where
  quant : jpeg'.quant = (tablesAt mem mDqt quantSize q).foldl (place (quantId mem)) jpeg.quant
  huffman : jpeg'.huffman = (tablesAt mem mDht (huffmanSize mem) q).foldl (place (huffmanId mem)) jpeg.huffman
  scan : sos = true → mem q = mSos ∧ ∀ i < (mem (q + 3)).toNat, ValidId (mem (q + 4 + 2 * i))

theorem switched_of_sameTables {q : Nat} {jpeg jpeg' : JpegT} {sos : Bool} (h : SameTables jpeg jpeg')
    (hq : mem q ≠ mDqt) (hh : mem q ≠ mDht)
    (hs : sos = true → mem q = mSos ∧ ∀ i < (mem (q + 3)).toNat, ValidId (mem (q + 4 + 2 * i))) :
    Switched mem q jpeg jpeg' sos := by
  refine ⟨?_, ?_, hs⟩
  · rw [tablesAt_of_ne hq]
    exact h.1
  · rw [tablesAt_of_ne hh]
    exact h.2

theorem switched_of_run {q : Nat} {jpeg jpeg' : JpegT} {sos : Bool}
    (h : (switchMarker (mem q) (q + 1) (segLenAt mem q) jpeg).run mem = some (jpeg', sos)) :
    Switched mem q jpeg jpeg' sos := by
  have hstop : (segEnd mem q : Int) = (q + 1 + 2 : Nat) + ((segLenAt mem q).toNat - 2) := by
    unfold segEnd
    omega
  -- A switch that reads no scan header.
  have noscan {C : Prop} (hs : sos = false) : sos = true → C := fun e => absurd (hs.symm.trans e) Bool.noConfusion
  by_cases hk : mem q ∈ knownMarkers
  · simp only [knownMarkers, List.mem_cons, List.not_mem_nil, or_false] at hk
    rcases hk with e | e | e | e | e
    · rw [e, switchMarker_dqt, run_bind, run_pure, Option.map_eq_some_iff] at h
      obtain ⟨r, hr, hpair⟩ := h
      cases hpair
      refine ⟨?_, ?_, noscan rfl⟩
      · rw [tablesAt, if_pos e]
        exact quant_of_processDqt hstop hr
      · rw [tablesAt_of_ne (by rw [e]; decide)]
        exact kept_processDqt (I := fun j => j.huffman = jpeg.huffman) (fun hj _ _ => hj) hr rfl
    · rw [e, switchMarker_dht, run_bind, run_pure, Option.some.injEq] at h
      cases h
      refine ⟨?_, ?_, noscan rfl⟩
      · rw [tablesAt_of_ne (by rw [e]; decide)]
        exact kept_processDht (I := fun j => j.quant = jpeg.quant) (fun hj _ _ => hj) rfl
      · rw [tablesAt, if_pos e]
        exact huffman_of_processDht hstop 0 jpeg
    · rw [e, switchMarker_sof0, run_byte_bind, run_bind, run_bind, run_bind, run_pure, Option.map_eq_some_iff] at h
      obtain ⟨r, hr, hpair⟩ := h
      cases hpair
      have hsame : SameTables jpeg jpeg' := kept_frameComps (I := SameTables jpeg) (fun hj _ _ _ _ => hj) hr ⟨rfl, rfl⟩
      exact switched_of_sameTables hsame (by rw [e]; decide) (by rw [e]; decide) (noscan rfl)
    · rw [e, switchMarker_dri, run_bind, run_pure, Option.some.injEq] at h
      cases h
      exact switched_of_sameTables ⟨rfl, rfl⟩ (by rw [e]; decide) (by rw [e]; decide) (noscan rfl)
    · rw [e, switchMarker_sos, run_bind, run_pure, Option.map_eq_some_iff] at h
      obtain ⟨r, hr, hpair⟩ := h
      cases hpair
      have hsame : SameTables jpeg jpeg' := kept_scanComps (I := SameTables jpeg) (fun hj _ _ _ => hj) hr ⟨rfl, rfl⟩
      refine switched_of_sameTables hsame (by rw [e]; decide) (by rw [e]; decide) fun _ => ⟨e, ?_⟩
      intro i hi
      exact validId_of_scanComps hr i (Nat.zero_le i) hi
  · rw [switchMarker_other _ _ _ hk] at h
    simp only [knownMarkers, List.mem_cons, List.not_mem_nil, or_false, not_or] at hk
    split at h
    · cases h
    · cases h
      exact switched_of_sameTables ⟨rfl, rfl⟩ hk.1 hk.2.1 (noscan rfl)

/-! ## The segments of an accepted buffer -/

/-- Induction over the segments of a buffer that is accepted: the switch sets `sos` at
the last of them, and at the others leaves the record for the next one. -/
theorem parseSegments_induction {jpeg' : JpegT} {P : Nat → JpegT → Prop}
    (scan : ∀ {p q : Nat} {jpeg jpeg₁ : JpegT}, SegmentAt mem len p q →
      (switchMarker (mem q) (q + 1) (segLenAt mem q) jpeg).run mem = some (jpeg₁, true) →
      jpeg' = jpeg₁.setData len (segEnd mem q) → P p jpeg)
    (segment : ∀ {p q : Nat} {jpeg jpeg₁ : JpegT}, SegmentAt mem len p q →
      (switchMarker (mem q) (q + 1) (segLenAt mem q) jpeg).run mem = some (jpeg₁, false) →
      P (segEnd mem q) jpeg₁ → P p jpeg)
    {p : Nat} {jpeg : JpegT} (h : (parseSegments len p jpeg).run mem = some jpeg') : P p jpeg := by
  induction p, jpeg using parseSegments.induct len with
  | case1 p jpeg ih =>
    obtain ⟨hfill, hstop⟩ := skipFill_spec mem len p
    rw [parseSegments, run_bind] at h
    generalize (skipFill len p).run mem = q at hfill hstop h
    split at h
    · next hheader =>
      rw [run_byte_bind, run_bind, show (be16 (q.1 + 1)).run mem = segLenAt mem q.1 from rfl] at h
      split at h
      · next hpayload =>
        have hseg : SegmentAt mem len p q.1 := ⟨q.2, hfill, hstop (by omega), hheader, hpayload⟩
        rw [run_bind] at h
        rcases hr : (switchMarker (mem q.1) (q.1 + 1) (segLenAt mem q.1) jpeg).run mem with - | ⟨jpeg₁, sos⟩
        · rw [hr] at h
          cases h
        rw [hr] at h
        cases sos with
        | true =>
          cases h
          exact scan hseg hr rfl
        | false => exact segment hseg hr (ih q hheader (segLenAt mem q.1) hpayload jpeg₁ h)
      · cases h
    · cases h

/-- An accepted buffer starts with the image's marker, and its segments are accepted. -/
theorem parseJpeg_some {jpeg : JpegT} (h : (parseJpeg len).run mem = some jpeg) :
    mem 0 = 0xff ∧ mem 1 = mSoi ∧ (parseSegments len 2 .zeroed).run mem = some jpeg := by
  unfold parseJpeg at h
  split at h
  · cases h
  rw [run_byte_bind] at h
  split at h
  · cases h
  next h0 =>
  rw [run_byte_bind] at h
  split at h
  · cases h
  next h1 =>
  exact ⟨not_not.1 h0, not_not.1 h1, h⟩

/-- From `p` on, segments with their markers at `qs`, the last of them a scan with
its data at `e`. -/
inductive Segments (mem : Nat → UInt8) (len : Nat) : Nat → List Nat → Nat → Prop
  | scan : SegmentAt mem len p q → mem q = mSos → (∀ i < (mem (q + 3)).toNat, ValidId (mem (q + 4 + 2 * i))) →
      Segments mem len p [q] (segEnd mem q)
  | segment : SegmentAt mem len p q → GoesOn mem q → Segments mem len (segEnd mem q) qs e →
      Segments mem len p (q :: qs) e

/-- What `parse_jpeg` leaves in the record of these segments. -/
structure Recorded (mem : Nat → UInt8) (len : Nat) (qs : List Nat) (e : Nat) (jpeg jpeg' : JpegT) : Prop where
  quant : jpeg'.quant = (quantTables mem qs).foldl (place (quantId mem)) jpeg.quant
  huffman : jpeg'.huffman = (huffmanTables mem qs).foldl (place (huffmanId mem)) jpeg.huffman
  data : jpeg'.data = some e
  dataLen : jpeg'.dataLen = UInt32.ofNat (len - e)

theorem segments_of_run {p : Nat} {jpeg jpeg' : JpegT} (h : (parseSegments len p jpeg).run mem = some jpeg') :
    ∃ qs e, Segments mem len p qs e ∧ Recorded mem len qs e jpeg jpeg' := by
  refine parseSegments_induction (P := fun p jpeg => ∃ qs e, Segments mem len p qs e ∧ Recorded mem len qs e jpeg jpeg')
    ?_ ?_ h
  · intro p q jpeg jpeg₁ hseg hr hdata
    have hsw := switched_of_run hr
    obtain ⟨hm, hids⟩ := hsw.scan rfl
    rw [hdata]
    refine ⟨[q], _, .scan hseg hm hids, ?_, ?_, rfl, rfl⟩
    · rw [quantTables, List.flatMap_singleton]
      exact hsw.quant
    · rw [huffmanTables, List.flatMap_singleton]
      exact hsw.huffman
  · intro p q jpeg jpeg₁ hseg hr ih
    have hsw := switched_of_run hr
    have hgoes := (goesOn_iff jpeg).1 ⟨jpeg₁, hr⟩
    obtain ⟨qs, e, hrest, hrec⟩ := ih
    refine ⟨q :: qs, e, .segment hseg hgoes hrest, ?_, ?_, hrec.data, hrec.dataLen⟩
    · rw [quantTables, List.flatMap_cons, List.foldl_append, ← hsw.quant]
      exact hrec.quant
    · rw [huffmanTables, List.flatMap_cons, List.foldl_append, ← hsw.huffman]
      exact hrec.huffman

/-- There is one way to read a buffer as segments. -/
theorem Segments.unique {p e e' : Nat} {qs qs' : List Nat} (h : Segments mem len p qs e)
    (h' : Segments mem len p qs' e') : qs = qs' ∧ e = e' := by
  induction h generalizing qs' e' with
  | scan hseg hm hids =>
    cases h' with
    | scan hseg' =>
      rw [← hseg.eq_skipFill, hseg'.eq_skipFill]
      exact ⟨rfl, rfl⟩
    | segment hseg' hgoes' =>
      rw [← hseg'.eq_skipFill, hseg.eq_skipFill] at hgoes'
      exact absurd (hm ▸ List.mem_cons_self ..) hgoes'.marker
  | segment hseg hgoes hrest ih =>
    cases h' with
    | scan hseg' hm =>
      rw [← hseg.eq_skipFill, hseg'.eq_skipFill] at hgoes
      exact absurd (hm ▸ List.mem_cons_self ..) hgoes.marker
    | segment hseg' hgoes' hrest' =>
      rw [← hseg'.eq_skipFill, hseg.eq_skipFill] at hrest' ⊢
      obtain ⟨rfl, rfl⟩ := ih hrest'
      exact ⟨rfl, rfl⟩

/-- Every segment ends before the buffer does. -/
theorem Segments.segEnd_lt {p e : Nat} {qs : List Nat} (h : Segments mem len p qs e) :
    ∀ q ∈ qs, segEnd mem q < len := by
  induction h with
  | scan hseg =>
    intro q hq
    rw [List.mem_singleton.1 hq]
    exact hseg.payload
  | segment hseg _ _ ih =>
    intro q hq
    rcases List.mem_cons.1 hq with rfl | hq
    · exact hseg.payload
    · exact ih q hq

theorem segments_of_parse {jpeg : JpegT} (h : (parseJpeg len).run mem = some jpeg) :
    mem 0 = 0xff ∧ mem 1 = mSoi ∧ ∃ qs e, Segments mem len 2 qs e ∧ Recorded mem len qs e .zeroed jpeg := by
  obtain ⟨h0, h1, h⟩ := parseJpeg_some h
  exact ⟨h0, h1, segments_of_run h⟩

/-! ## The grammar -/

/-- Tables as blocks of the payload. -/
def tableLayout (size : Nat → Nat) : Layout Nat Nat where
  addr := id
  len := size
  place := id

/-- The tables from the start of the payload on are laid end to end and cover it,
each of them starting in the segment. This is so of `tablesFrom` for any bytes; what the
bytes have to be is in `Recorded` and `GoesOn`. -/
def TablesLaid (mem : Nat → UInt8) (size : Nat → Nat) (q : Nat) : Prop :=
  ∃ b, (tableLayout size).Tiles (q + 3) (tablesFrom size (q + 3) (segEnd mem q)) b ∧ segEnd mem q ≤ b ∧
    ∀ t ∈ tablesFrom size (q + 3) (segEnd mem q), t < segEnd mem q

theorem tablesFrom_tiles {size : Nat → Nat} (hsize : ∀ t, 0 < size t) (off stop : Nat) :
    ∃ b, (tableLayout size).Tiles off (tablesFrom size off stop) b ∧ stop ≤ b ∧
      ∀ t ∈ tablesFrom size off stop, t < stop := by
  induction off using tablesFrom.induct size stop with
  | case1 off h ih =>
    obtain ⟨b, ht, hb, hlt⟩ := ih
    rw [tablesFrom, if_pos h]
    refine ⟨b, ⟨rfl, h.2, ht⟩, hb, ?_⟩
    intro t hm
    rcases List.mem_cons.1 hm with rfl | hm
    · exact h.1
    · exact hlt t hm
  | case2 off h =>
    rw [tablesFrom, if_neg h]
    have := hsize off
    exact ⟨off, rfl, by omega, fun t hm => absurd hm List.not_mem_nil⟩

theorem tablesLaid {size : Nat → Nat} (hsize : ∀ t, 0 < size t) (q : Nat) : TablesLaid mem size q :=
  tablesFrom_tiles hsize (q + 3) (segEnd mem q)

theorem quantSize_pos (t : Nat) : 0 < quantSize t := Nat.succ_pos 64

theorem huffmanSize_pos (t : Nat) : 0 < huffmanSize mem t := by
  unfold huffmanSize
  omega

/-- **What `parse_jpeg` accepts.** An accepted buffer is an image start and
segments, each after any number of fill bytes and inside the buffer, none under a
marker the parser rejects; quantization tables are of 8 bits and tables of either
kind laid end to end in their payload, the last of each id recorded; the ids of
components are those of Y, Cb and Cr; and the scan data reported is what follows the
scan header, which is the last segment. -/
theorem parse_jpeg_accepts {jpeg : JpegT} (h : (parseJpeg len).run mem = some jpeg) :
    mem 0 = 0xff ∧ mem 1 = mSoi ∧ ∃ qs e, Segments mem len 2 qs e ∧
      (∀ q ∈ qs, (mem q = mDqt → TablesLaid mem quantSize q) ∧ (mem q = mDht → TablesLaid mem (huffmanSize mem) q)) ∧
      Recorded mem len qs e .zeroed jpeg := by
  obtain ⟨h0, h1, qs, e, hsegs, hrec⟩ := segments_of_parse h
  refine ⟨h0, h1, qs, e, hsegs, ?_, hrec⟩
  intro q _
  exact ⟨fun _ => tablesLaid quantSize_pos q, fun _ => tablesLaid huffmanSize_pos q⟩

theorem parse_jpeg_accepts_sample :
    let mem := fun i => sampleStream.bytes.getD i 0
    let len := sampleStream.bytes.length
    ∃ (jpeg : JpegT) (qs : List Nat) (e : Nat), jpeg.width = 640 ∧ Segments mem len 2 qs e ∧
      (∀ q ∈ qs, (mem q = mDqt → TablesLaid mem quantSize q) ∧ (mem q = mDht → TablesLaid mem (huffmanSize mem) q)) ∧
      Recorded mem len qs e .zeroed jpeg := by
  intro mem len
  have hsome : ((parseJpeg len).run mem).any (·.width == 640) = true := by decide +kernel
  obtain ⟨jpeg, hparse, hwidth⟩ := (Option.any_eq_true _ _).1 hsome
  obtain ⟨-, -, qs, e, hsegs, htables, hrec⟩ := parse_jpeg_accepts hparse
  exact ⟨jpeg, qs, e, beq_iff_eq.1 hwidth, hsegs, htables, hrec⟩

/-- From `p` on, a fill byte at least before each marker. -/
def Filled (mem : Nat → UInt8) : Nat → List Nat → Prop
  | _, [] => True
  | p, q :: qs => p < q ∧ Filled mem (segEnd mem q) qs

/-- A `DQT` and a `DHT` of one byte each, a segment of length 0 whose length is
the next marker, and a scan header without components, all without fill bytes. -/
def looseBytes : List UInt8 :=
  [0xff, mSoi, mDqt, 0, 3, 0, mDht, 0, 3, 0, 0xe0, 0, 0, 2, mSos, 0, 3, 0] ++ List.replicate 16 0

def looseMem (i : Nat) : UInt8 := looseBytes.getD i 0

/-- Segments at 2, 6, 10, 11 and 14, each right behind the other. -/
theorem loose_segments : Segments looseMem 34 2 [2, 6, 10, 11, 14] 18 := by
  have at' {q e : Nat} (he : segEnd looseMem q = e) (hm : looseMem q ≠ 0xff) (h : q + 2 < 34 ∧ e < 34) :
      SegmentAt looseMem 34 q q :=
    ⟨Nat.le_refl q, fun i h1 h2 => absurd h1 (Nat.not_le.2 h2), hm, h.1, by rw [← he] at h; exact h.2⟩
  have other {q : Nat} (hm : looseMem q ∉ [mDqt, mSof0] ++ mSos :: rejectedMarkers) : GoesOn looseMem q := by
    simp only [List.mem_append, not_or, List.mem_cons, List.not_mem_nil, or_false] at hm
    refine ⟨by simp only [List.mem_cons, not_or]; exact hm.2, fun e => absurd e hm.1.1, fun e => absurd e hm.1.2⟩
  have h14 : Segments looseMem 34 14 [14] 18 := by
    have he : segEnd looseMem 14 = 18 := by decide +kernel
    have h := Segments.scan (at' he (by decide) (by decide)) (by decide) (fun i hi => absurd hi (by
      rw [show (looseMem (14 + 3)).toNat = 0 by decide]
      exact Nat.not_lt_zero i))
    rwa [he] at h
  have h11 : Segments looseMem 34 11 [11, 14] 18 := by
    have he : segEnd looseMem 11 = 14 := by decide +kernel
    exact .segment (at' he (by decide) (by decide)) (other (by decide)) (by rw [he]; exact h14)
  have h10 : Segments looseMem 34 10 [10, 11, 14] 18 := by
    have he : segEnd looseMem 10 = 11 := by decide +kernel
    exact .segment (at' he (by decide) (by decide)) (other (by decide)) (by rw [he]; exact h11)
  have h6 : Segments looseMem 34 6 [6, 10, 11, 14] 18 := by
    have he : segEnd looseMem 6 = 10 := by decide +kernel
    exact .segment (at' he (by decide) (by decide)) (other (by decide)) (by rw [he]; exact h10)
  have he : segEnd looseMem 2 = 6 := by decide +kernel
  refine .segment (at' he (by decide) (by decide)) ⟨by decide, fun _ k hk => ?_, fun e => absurd e (by decide)⟩
    (by rw [he]; exact h6)
  rw [show (segLenAt looseMem 2).toNat = 3 by decide +kernel] at hk
  obtain rfl : k = 0 := by omega
  decide

/-- The buffer is accepted, and its segments are nothing like the format has them:
no fill byte before a marker, a length below 2, no frame header, tables cut by the
end of their segment and a scan header shorter than a scan header is. -/
theorem not_strict :
    ∃ jpeg qs e, (parseJpeg looseBytes.length).run looseMem = some jpeg ∧
      Segments looseMem looseBytes.length 2 qs e ∧ looseMem 2 ≠ 0xff ∧ ¬ Filled looseMem 2 qs ∧
      (∃ q ∈ qs, (segLenAt looseMem q).toNat < 2) ∧
      (∀ q ∈ qs, looseMem q ≠ mSof0) ∧
      (∃ q ∈ qs, looseMem q = mDqt ∧ ¬ ∃ ts, (tableLayout quantSize).Tiles (q + 3) ts (segEnd looseMem q)) ∧
      (∃ q ∈ qs, looseMem q = mDht ∧
        ¬ ∃ ts, (tableLayout (huffmanSize looseMem)).Tiles (q + 3) ts (segEnd looseMem q)) ∧
      ∃ q ∈ qs, looseMem q = mSos ∧ (segLenAt looseMem q).toNat ≠ 6 + 2 * (looseMem (q + 3)).toNat := by
  -- One byte is less than a table.
  have cut {size : Nat → Nat} (hsize : ∀ t, 1 < size t) {a : Nat} :
      ¬ ∃ ts, (tableLayout size).Tiles a ts (a + 1) := by
    rintro ⟨ts, h⟩
    cases ts with
    | nil => exact absurd (show a = a + 1 from h) (by omega)
    | cons t ts =>
      have hle : a + size t ≤ a + 1 := h.2.2.le
      have := hsize t
      omega
  obtain ⟨jpeg, hparse⟩ : ∃ jpeg, (parseJpeg looseBytes.length).run looseMem = some jpeg :=
    Option.isSome_iff_exists.1 (by decide +kernel)
  refine ⟨jpeg, [2, 6, 10, 11, 14], 18, hparse, loose_segments, by decide, fun h => absurd h.1 (Nat.lt_irrefl 2),
    ⟨10, by decide, by decide +kernel⟩, by decide, ⟨2, by decide, by decide, ?_⟩, ⟨6, by decide, by decide, ?_⟩,
    ⟨14, by decide, by decide, by decide +kernel⟩⟩
  · rw [show segEnd looseMem 2 = 2 + 3 + 1 by decide +kernel]
    exact cut fun t => show 1 < 65 by decide
  · rw [show segEnd looseMem 6 = 6 + 3 + 1 by decide +kernel]
    refine cut fun t => ?_
    unfold huffmanSize
    omega

end Camview
