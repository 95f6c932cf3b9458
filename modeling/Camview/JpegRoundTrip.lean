/-
`parse_jpeg` on the bytes of a well-formed stream. Each loop of the parser, run
over the bytes of a list of tables, components or segments, makes the list's
definitions one after the other (`Def.apply`); what a field holds at the end is
then its last definition, by one lemma for all fields (`get_foldl_apply`).

`parse_jpeg_decodes` puts this together for the whole stream, on any memory that
holds its bytes.
-/
import Camview.JpegStream
import Mathlib.Data.List.Induction

namespace Camview

open Reader

variable {mem : Nat → UInt8}

/-- What a definition makes of the record. -/
def Def.apply (jpeg : JpegT) : Def → JpegT
  | .quant off t => jpeg.setQuant t.id off
  | .huffman off t => jpeg.setHuffman t.slot off
  | .frame bits width height => jpeg.setFrame bits width height
  | .comp c => jpeg.setComp c.id (UInt8.ofNat c.sampH.val) (UInt8.ofNat c.sampV.val) c.qt
  | .tables c => jpeg.setTables c.id (UInt8.ofNat c.htDc.val) (UInt8.ofNat c.htAc.val)
  | .restart n => jpeg.setRestart n

/-! ## Bytes -/

theorem quantId_shift (k : Fin 4) : UInt8.ofNat k.val >>> 4 = 0 := by
  revert k
  decide

theorem quantId_mask (k : Fin 4) : Fin.ofNat 4 (UInt8.ofNat k.val &&& 0x03).toNat = k := by
  revert k
  decide

theorem huffmanId_slot (c : Fin 2) (k : Fin 4) :
    ((UInt8.ofNat (16 * c.val + k.val) &&& 0x03) <<< 1 ||| (UInt8.ofNat (16 * c.val + k.val) &&& 0x10) >>> 4).toNat =
      2 * k.val + c.val := by
  revert c k
  decide

theorem compId_sub (k : Fin 3) : (UInt8.ofNat (k.val + 1) - 1).toNat = k.val := by
  revert k
  decide

theorem nibbles_shift (hi lo : Fin 16) : nibbles hi lo >>> 4 = UInt8.ofNat hi.val := by
  revert hi lo
  decide

theorem nibbles_mask (hi lo : Fin 16) : nibbles hi lo &&& 0x0f = UInt8.ofNat lo.val := by
  revert hi lo
  decide

theorem run_be16 {pos : Nat} {n : UInt16} (h : At mem pos (be16Bytes n)) : (be16 pos).run mem = n := by
  rw [be16Bytes, at_cons, at_cons] at h
  rw [be16, run_byte_bind, run_byte_bind, run_pure, h.1, h.2.1]
  refine UInt16.toNat_inj.1 ?_
  have hn := n.toNat_lt
  rw [toNat_be16, UInt16.toNat_toUInt8, UInt16.toNat_toUInt8, UInt16.toNat_shiftRight]
  show 256 * (n.toNat >>> 8 % 2 ^ 8) + n.toNat % 2 ^ 8 = n.toNat
  omega

/-! ## Tables -/

theorem run_processDqt {base pos : Nat} {tables : List QuantT} {len : Int} {jpeg : JpegT}
    (h : At mem (base + pos) (tables.flatMap QuantT.bytes))
    (hlen : len = pos + (tables.flatMap QuantT.bytes).length) :
    (processDqt base len pos jpeg).run mem = some ((quantDefs (base + pos) tables).foldl Def.apply jpeg) := by
  induction tables generalizing pos jpeg with
  | nil =>
    rw [processDqt]
    rw [List.flatMap_nil, List.length_nil] at hlen
    rw [if_neg (by omega)]
    rfl
  | cons t ts ih =>
    rw [List.flatMap_cons] at h hlen
    obtain ⟨ht, hts⟩ := at_append.1 h
    have hb : t.bytes.length = 65 := by simp [QuantT.bytes]
    have hid : mem (base + pos) = UInt8.ofNat t.id.val := (at_cons.1 ht).1
    rw [List.length_append, hb] at hlen
    rw [processDqt, if_pos (by omega), run_byte_bind, hid, if_neg (by simp [quantId_shift]), run_byte_bind, hid,
      quantId_mask]
    rw [hb, Nat.add_assoc] at hts
    rw [ih hts (by omega), quantDefs, hb, List.foldl_cons, Nat.add_assoc base pos 65]
    rfl

theorem run_sumNum {pos : Nat} {l : List UInt8} (h : At mem pos l) :
    (sumNum pos l.length).run mem = (l.map UInt8.toNat).sum := by
  induction l using List.reverseRecOn with
  | nil => rfl
  | append_singleton l a ih =>
    obtain ⟨hl, ha⟩ := at_append.1 h
    rw [List.length_append, List.length_singleton, sumNum]
    rw [run_bind, ih hl, run_byte_bind, (at_cons.1 ha).1, run_pure, List.map_append, List.sum_append]
    simp

theorem run_processDht {base pos : Nat} {tables : List HuffmanT} {len : Int} {jpeg : JpegT}
    (h : At mem (base + pos) (tables.flatMap HuffmanT.bytes))
    (hlen : len = pos + (tables.flatMap HuffmanT.bytes).length) :
    (processDht base len pos jpeg).run mem = (huffmanDefs (base + pos) tables).foldl Def.apply jpeg := by
  induction tables generalizing pos jpeg with
  | nil =>
    rw [processDht]
    rw [List.flatMap_nil, List.length_nil] at hlen
    rw [if_neg (by omega)]
    rfl
  | cons t ts ih =>
    rw [List.flatMap_cons] at h hlen
    obtain ⟨ht, hts⟩ := at_append.1 h
    obtain ⟨hid, hbody⟩ := at_cons.1 ht
    have hb : t.bytes.length = 17 + t.codes.length := by
      simp [HuffmanT.bytes, HuffmanT.body]
      omega
    have hsum : (sumNum (base + pos + 1) 16).run mem = t.codes.length := by
      have hnum := run_sumNum (at_append.1 hbody).1
      rw [Vector.length_toList] at hnum
      rw [hnum, t.codes_length]
    have hslot : Fin.ofNat 8 (2 * t.id.val + t.tableClass.val) = t.slot := by
      refine Fin.ext (Nat.mod_eq_of_lt ?_)
      omega
    rw [List.length_append, hb] at hlen
    rw [processDht, if_pos (by omega), run_byte_bind, run_byte_bind, hid]
    dsimp only
    rw [huffmanId_slot, hslot, run_bind, hsum, Nat.add_assoc pos 17]
    rw [hb, Nat.add_assoc base pos] at hts
    rw [ih hts (by omega), huffmanDefs, hb, List.foldl_cons, Nat.add_assoc base pos (17 + _)]
    rfl

/-! ## Headers -/

theorem run_frameComps {pos i : Nat} {comps : List FrameComp} {jpeg : JpegT}
    (hn : (mem (pos + 7)).toNat = i + comps.length)
    (h : At mem (pos + 8 + 3 * i) (comps.flatMap FrameComp.bytes)) :
    (frameComps pos i jpeg).run mem = some ((comps.map Def.comp).foldl Def.apply jpeg) := by
  induction comps generalizing i jpeg with
  | nil =>
    rw [frameComps]
    rw [run_byte_bind, if_neg (by simpa using Nat.le_of_eq hn)]
    rfl
  | cons c cs ih =>
    rw [List.flatMap_cons] at h
    obtain ⟨hc, hcs⟩ := at_append.1 h
    simp only [FrameComp.bytes, at_cons] at hc
    obtain ⟨hid, hs, hq, -⟩ := hc
    rw [List.length_cons] at hn
    rw [frameComps]
    rw [run_byte_bind, if_pos (by omega), run_byte_bind, hid, dif_pos (by rw [compId_sub]; exact c.id.isLt)]
    rw [run_byte_bind, run_byte_bind, run_byte_bind]
    rw [show pos + 9 + 3 * i = pos + 8 + 3 * i + 1 by omega, show pos + 10 + 3 * i = pos + 8 + 3 * i + 1 + 1 by omega,
      hs, hq, nibbles_shift, nibbles_mask]
    have hcs' : At mem (pos + 8 + 3 * (i + 1)) (cs.flatMap FrameComp.bytes) := by
      rw [Nat.mul_add, ← Nat.add_assoc]
      exact hcs
    rw [ih (by omega) hcs', List.map_cons, List.foldl_cons]
    congr 3
    exact Fin.ext (compId_sub c.id)

theorem run_scanComps {pos i : Nat} {comps : List ScanComp} {jpeg : JpegT}
    (hn : (mem (pos + 2)).toNat = i + comps.length)
    (h : At mem (pos + 3 + 2 * i) (comps.flatMap ScanComp.bytes)) :
    (scanComps pos i jpeg).run mem = some ((comps.map Def.tables).foldl Def.apply jpeg) := by
  induction comps generalizing i jpeg with
  | nil =>
    rw [scanComps]
    rw [run_byte_bind, if_neg (by simpa using Nat.le_of_eq hn)]
    rfl
  | cons c cs ih =>
    rw [List.flatMap_cons] at h
    obtain ⟨hc, hcs⟩ := at_append.1 h
    simp only [ScanComp.bytes, at_cons] at hc
    obtain ⟨hid, hs, -⟩ := hc
    rw [List.length_cons] at hn
    rw [scanComps]
    rw [run_byte_bind, if_pos (by omega), run_byte_bind, hid, dif_pos (by rw [compId_sub]; exact c.id.isLt)]
    rw [run_byte_bind, run_byte_bind]
    rw [show pos + 4 + 2 * i = pos + 3 + 2 * i + 1 by omega, hs, nibbles_shift, nibbles_mask]
    have hcs' : At mem (pos + 3 + 2 * (i + 1)) (cs.flatMap ScanComp.bytes) := by
      rw [Nat.mul_add, ← Nat.add_assoc]
      exact hcs
    rw [ih (by omega) hcs', List.map_cons, List.foldl_cons]
    congr 3
    exact Fin.ext (compId_sub c.id)

/-! ## Segments -/

/-- What the switch does under a marker that comes before the scan. -/
theorem run_switchMarker {pos : Nat} {body : Body} (jpeg : JpegT) (h : At mem (pos + 2) body.payload)
    (hshort : body.payload.length + 2 < 65536) :
    (switchMarker body.marker pos (UInt16.ofNat (body.payload.length + 2)) jpeg).run mem =
      some ((body.defs (pos + 2)).foldl Def.apply jpeg, false) := by
  have hlen : ((UInt16.ofNat (body.payload.length + 2)).toNat : Int) - 2 = (0 : Nat) + body.payload.length := by
    rw [UInt16.toNat_ofNat', Nat.mod_eq_of_lt hshort]
    omega
  generalize hn : UInt16.ofNat (body.payload.length + 2) = n at hlen ⊢
  cases body with
  | dqt tables =>
    show (switchMarker mDqt pos n jpeg).run mem = _
    rw [switchMarker_dqt, run_bind, run_processDqt (show At mem (pos + 2 + 0) _ from h) hlen]
    rfl
  | dht tables =>
    show (switchMarker mDht pos n jpeg).run mem = _
    rw [switchMarker_dht, run_bind, run_processDht (show At mem (pos + 2 + 0) _ from h) hlen]
    rfl
  | sof0 bits height width comps few =>
    simp only [Body.payload, at_append] at h
    obtain ⟨⟨⟨⟨hbits, hheight⟩, hwidth⟩, hcount⟩, hcomps⟩ := h
    have hh : At mem (pos + 3) (be16Bytes height) := hheight
    have hw : At mem (pos + 5) (be16Bytes width) := hwidth
    have hc : (mem (pos + 7)).toNat = 0 + comps.length := by
      rw [show mem (pos + 7) = UInt8.ofNat comps.length from (at_cons.1 hcount).1, UInt8.toNat_ofNat']
      omega
    show (switchMarker mSof0 pos n jpeg).run mem = _
    rw [switchMarker_sof0, run_byte_bind, run_bind, run_be16 hw, run_bind, run_be16 hh, run_bind,
      run_frameComps hc hcomps, (at_cons.1 hbits).1]
    rfl
  | dri n' =>
    show (switchMarker mDri pos n jpeg).run mem = _
    rw [switchMarker_dri, run_bind, run_be16 h]
    rfl
  | other marker payload ignored =>
    show (switchMarker marker pos n jpeg).run mem = _
    rw [switchMarker_other _ _ _ ignored.2.1, if_neg ignored.1]
    rfl

theorem marker_ne_fill (body : Body) : body.marker ≠ 0xff := by
  cases body with
  | dqt => exact (by decide : mDqt ≠ 0xff)
  | dht => exact (by decide : mDht ≠ 0xff)
  | sof0 => exact (by decide : mSof0 ≠ 0xff)
  | dri => exact (by decide : mDri ≠ 0xff)
  | other marker payload ignored => exact ignored.2.2

theorem run_skipFill {len pos n : Nat} (h : At mem pos (List.replicate n 0xff)) (hstop : mem (pos + n) ≠ 0xff)
    (hlen : pos + n < len) : ((skipFill len pos).run mem).1 = pos + n := by
  induction n generalizing pos with
  | zero =>
    rw [Nat.add_zero] at hstop hlen
    rw [skipFill, if_pos hlen, run_byte_bind, if_neg hstop]
    rfl
  | succ n ih =>
    rw [List.replicate_succ, at_cons] at h
    rw [skipFill, if_pos (by omega), run_byte_bind, if_pos h.1, run_bind]
    show ((skipFill len (pos + 1)).run mem).1 = pos + (n + 1)
    rw [Nat.add_comm n 1, ← Nat.add_assoc] at hstop hlen ⊢
    exact ih h.2 hstop hlen

theorem segmentBytes_length (fill : Nat) (marker : UInt8) (payload : List UInt8) :
    (segmentBytes fill marker payload).length = fill + 4 + payload.length := by
  simp [segmentBytes, be16Bytes]
  omega

theorem at_payload {pos fill : Nat} {marker : UInt8} {payload : List UInt8}
    (h : At mem pos (segmentBytes fill marker payload)) : At mem (pos + fill + 4) payload := by
  unfold segmentBytes at h
  have hp := (at_append.1 h).2
  simp only [List.length_append, List.length_replicate, List.length_singleton] at hp
  rw [show pos + fill + 4 = pos + (fill + 1 + 1 + 2) by omega]
  exact hp

/-- The loop at the fill bytes of a segment: it reads the marker and the length,
and goes on with the switch. -/
theorem run_parseSegments {len pos fill : Nat} {marker : UInt8} {payload : List UInt8} {jpeg : JpegT}
    (h : At mem pos (segmentBytes fill marker payload)) (hm : marker ≠ 0xff) (hshort : payload.length + 2 < 65536)
    (hlen : pos + (segmentBytes fill marker payload).length < len) {r : Option (JpegT × Bool)}
    (hr : (switchMarker marker (pos + fill + 2) (UInt16.ofNat (payload.length + 2)) jpeg).run mem = r) :
    (parseSegments len pos jpeg).run mem =
      match r with
      | none => none
      | some (jpeg, true) => some (jpeg.setData len (pos + (segmentBytes fill marker payload).length))
      | some (jpeg, false) => (parseSegments len (pos + (segmentBytes fill marker payload).length) jpeg).run mem := by
  have hsize := segmentBytes_length fill marker payload
  generalize (segmentBytes fill marker payload).length = size at hlen hsize ⊢
  unfold segmentBytes at h
  simp only [at_append, List.length_append, List.length_replicate, List.length_singleton] at h
  obtain ⟨⟨⟨hfill, hmarker⟩, hl⟩, -⟩ := h
  have hq : mem (pos + (fill + 1)) = marker := (at_cons.1 hmarker).1
  have hlength : At mem (pos + (fill + 1) + 1) (be16Bytes (UInt16.ofNat (payload.length + 2))) := hl
  have hskip := run_skipFill hfill (by rw [hq]; exact hm) (show pos + (fill + 1) < len by omega)
  have hend : pos + (fill + 1) + 1 + (UInt16.ofNat (payload.length + 2)).toNat = pos + size := by
    rw [UInt16.toNat_ofNat', Nat.mod_eq_of_lt hshort]
    omega
  have hpos : pos + fill + 2 = pos + (fill + 1) + 1 := by omega
  rw [hpos] at hr
  rw [parseSegments, run_bind]
  generalize (skipFill len pos).run mem = q at hskip ⊢
  rw [hskip, if_pos (by omega), run_byte_bind, hq, run_bind, run_be16 hlength, hend, if_pos hlen, run_bind, hr]
  rcases r with - | ⟨jpeg', sos⟩
  · rfl
  · cases sos <;> rfl

/-- The loop over the segments before the scan. -/
theorem run_parseSegments_segments {len pos : Nat} {segments : List Segment} {jpeg : JpegT}
    (h : At mem pos (segments.flatMap Segment.bytes)) (hlen : pos + (segments.flatMap Segment.bytes).length < len) :
    (parseSegments len pos jpeg).run mem =
      (parseSegments len (pos + (segments.flatMap Segment.bytes).length)
        ((segmentDefs pos segments).foldl Def.apply jpeg)).run mem := by
  induction segments generalizing pos jpeg with
  | nil => rfl
  | cons s ss ih =>
    rw [List.flatMap_cons] at h hlen ⊢
    rw [List.length_append] at hlen ⊢
    obtain ⟨hs, hss⟩ := at_append.1 h
    have hpayload : At mem (pos + s.fill + 2 + 2) s.body.payload := at_payload hs
    have hswitch := run_switchMarker jpeg hpayload s.short
    have hsl : pos + (segmentBytes s.fill s.body.marker s.body.payload).length < len := by
      show pos + s.bytes.length < len
      omega
    rw [run_parseSegments hs (marker_ne_fill s.body) s.short hsl hswitch]
    show (parseSegments len (pos + s.bytes.length) _).run mem = _
    rw [ih hss (by omega), segmentDefs, List.foldl_append, Nat.add_assoc]

/-- The loop at the scan header. -/
theorem run_parseSegments_scan {len pos : Nat} {scan : Scan} {jpeg : JpegT} (h : At mem pos scan.bytes)
    (hlen : pos + scan.bytes.length < len) :
    (parseSegments len pos jpeg).run mem =
      some (((scan.comps.map Def.tables).foldl Def.apply jpeg).setData len (pos + scan.bytes.length)) := by
  have hpayload := at_payload h
  unfold Scan.payload at hpayload
  rw [List.cons_append, at_cons, at_append] at hpayload
  obtain ⟨hcount, hcomps, -⟩ := hpayload
  have hn : (mem (pos + scan.fill + 2 + 2)).toNat = 0 + scan.comps.length := by
    have := scan.few
    rw [show pos + scan.fill + 2 + 2 = pos + scan.fill + 4 by omega, hcount, UInt8.toNat_ofNat']
    omega
  have hswitch : (switchMarker mSos (pos + scan.fill + 2) (UInt16.ofNat (scan.payload.length + 2)) jpeg).run mem =
      some ((scan.comps.map Def.tables).foldl Def.apply jpeg, true) := by
    rw [switchMarker_sos, run_bind, run_scanComps hn (by exact hcomps)]
    rfl
  exact run_parseSegments h (by decide) scan.short hlen hswitch

/-- What `parse_jpeg` makes of a stream: all its definitions, and the tail. -/
theorem run_parseJpeg {s : Stream} (h : At mem 0 s.bytes) :
    (parseJpeg s.bytes.length).run mem =
      some ((s.defs.foldl Def.apply .zeroed).setData s.bytes.length (headerBytes s.segments s.scan).length) := by
  have hlen : (headerBytes s.segments s.scan).length < s.bytes.length := by
    have := List.length_pos_iff.2 s.nonempty
    rw [Stream.bytes, List.length_append]
    omega
  have hsize : (headerBytes s.segments s.scan).length =
      2 + (s.segments.flatMap Segment.bytes).length + s.scan.bytes.length := by
    rw [headerBytes, List.length_append, List.length_append]
    rfl
  obtain ⟨hheader, -⟩ := at_append.1 h
  rw [headerBytes, at_append, at_append, List.length_append] at hheader
  obtain ⟨⟨hsoi, hsegments⟩, hscan⟩ := hheader
  rw [Nat.zero_add] at hsegments hscan
  rw [at_cons, at_cons] at hsoi
  obtain ⟨h0, h1, -⟩ := hsoi
  have hsegments' : At mem 2 (s.segments.flatMap Segment.bytes) := hsegments
  have hscan' : At mem (2 + (s.segments.flatMap Segment.bytes).length) s.scan.bytes := hscan
  generalize s.bytes.length = len at hlen
  rw [hsize] at hlen ⊢
  rw [parseJpeg, if_neg (by omega), run_byte_bind, h0, if_neg (by decide), run_byte_bind, h1, if_neg (by decide),
    run_parseSegments_segments hsegments' (by omega), run_parseSegments_scan hscan' hlen, Stream.defs,
    List.foldl_append]

/-! ## Last definitions -/

/-- A field that each definition either sets or leaves alone holds its last definition. -/
theorem get_foldl_apply {α β : Type} (get : JpegT → α) (sel : Def → Option β) (f : β → α)
    (h : ∀ d jpeg, get (Def.apply jpeg d) = ((sel d).map f).getD (get jpeg)) (ds : List Def) (jpeg : JpegT) :
    get (ds.foldl Def.apply jpeg) = ((lastDef sel ds).map f).getD (get jpeg) := by
  induction ds using List.reverseRecOn with
  | nil => rfl
  | append_singleton ds d ih =>
    rw [List.foldl_append, List.foldl_cons, List.foldl_nil, h, ih]
    unfold lastDef
    rw [List.filterMap_append, List.filterMap_cons, List.filterMap_nil]
    cases sel d with
    | none => simp
    | some b => simp

/-- What the stream holds where a definition says a table is. -/
def Def.Placed (mem : Nat → UInt8) : Def → Prop
  | .quant off t => At mem off t.coeff.toList
  | .huffman off t => At mem off t.body
  | _ => True

theorem quantDefs_placed {pos : Nat} {tables : List QuantT} (h : At mem pos (tables.flatMap QuantT.bytes)) :
    ∀ d ∈ quantDefs pos tables, d.Placed mem := by
  induction tables generalizing pos with
  | nil => exact fun _ hd => absurd hd List.not_mem_nil
  | cons t ts ih =>
    rw [List.flatMap_cons, at_append] at h
    rw [quantDefs, List.forall_mem_cons]
    exact ⟨(at_cons.1 h.1).2, ih h.2⟩

theorem huffmanDefs_placed {pos : Nat} {tables : List HuffmanT} (h : At mem pos (tables.flatMap HuffmanT.bytes)) :
    ∀ d ∈ huffmanDefs pos tables, d.Placed mem := by
  induction tables generalizing pos with
  | nil => exact fun _ hd => absurd hd List.not_mem_nil
  | cons t ts ih =>
    rw [List.flatMap_cons, at_append] at h
    rw [huffmanDefs, List.forall_mem_cons]
    exact ⟨(at_cons.1 h.1).2, ih h.2⟩

theorem bodyDefs_placed {pos : Nat} {body : Body} (h : At mem pos body.payload) :
    ∀ d ∈ body.defs pos, d.Placed mem := by
  cases body with
  | dqt tables => exact quantDefs_placed h
  | dht tables => exact huffmanDefs_placed h
  | sof0 bits height width comps few => simp [Body.defs, Def.Placed]
  | dri n => simp [Body.defs, Def.Placed]
  | other => simp [Body.defs]

theorem segmentDefs_placed {pos : Nat} {segments : List Segment}
    (h : At mem pos (segments.flatMap Segment.bytes)) : ∀ d ∈ segmentDefs pos segments, d.Placed mem := by
  induction segments generalizing pos with
  | nil => exact fun _ hd => absurd hd List.not_mem_nil
  | cons s ss ih =>
    rw [List.flatMap_cons, at_append] at h
    rw [segmentDefs, List.forall_mem_append]
    exact ⟨bodyDefs_placed (at_payload h.1), ih h.2⟩

theorem streamDefs_placed {s : Stream} (h : At mem 0 s.bytes) : ∀ d ∈ s.defs, d.Placed mem := by
  obtain ⟨hheader, -⟩ := at_append.1 h
  rw [headerBytes, at_append, at_append] at hheader
  rw [Stream.defs, List.forall_mem_append]
  exact ⟨segmentDefs_placed hheader.1.2, by simp [Def.Placed]⟩

theorem lastDef_mem {β : Type} {sel : Def → Option β} {ds : List Def} {b : β} (h : lastDef sel ds = some b) :
    ∃ d ∈ ds, sel d = some b :=
  List.mem_filterMap.1 (List.mem_of_getLast? h)

/-! ## The whole stream -/

/-- Every field is the last definition of it in the stream, or what it was on
the zeroed record; tables are where the record points to, and so is the tail. -/
structure Decodes (mem : Nat → UInt8) (s : Stream) (jpeg : JpegT) : Prop where
  quant : ∀ k, jpeg.quant k = (lastDef (Def.quantAt k) s.defs).map Prod.fst
  quantTable : ∀ k off t, lastDef (Def.quantAt k) s.defs = some (off, t) → At mem off t.coeff.toList
  huffman : ∀ k, jpeg.huffman k = (lastDef (Def.huffmanAt k) s.defs).map Prod.fst
  huffmanTable : ∀ k off t, lastDef (Def.huffmanAt k) s.defs = some (off, t) → At mem off (t.num.toList ++ t.codes)
  bits : jpeg.bits = ((lastDef Def.frameAt s.defs).map (·.1)).getD 0
  width : jpeg.width = ((lastDef Def.frameAt s.defs).map (·.2.1)).getD 0
  height : jpeg.height = ((lastDef Def.frameAt s.defs).map (·.2.2)).getD 0
  sampH : ∀ k, (jpeg.comp k).sampH = ((lastDef (Def.compAt k) s.defs).map (UInt8.ofNat ·.sampH.val)).getD 0
  sampV : ∀ k, (jpeg.comp k).sampV = ((lastDef (Def.compAt k) s.defs).map (UInt8.ofNat ·.sampV.val)).getD 0
  qt : ∀ k, (jpeg.comp k).qt = ((lastDef (Def.compAt k) s.defs).map (·.qt)).getD 0
  htDc : ∀ k, (jpeg.comp k).htDc = ((lastDef (Def.tablesAt k) s.defs).map (UInt8.ofNat ·.htDc.val)).getD 0
  htAc : ∀ k, (jpeg.comp k).htAc = ((lastDef (Def.tablesAt k) s.defs).map (UInt8.ofNat ·.htAc.val)).getD 0
  restartInterval : jpeg.restartInterval = (lastDef Def.restartAt s.defs).getD 0
  tail : ∃ off, jpeg.data = some off ∧ At mem off s.tail ∧ off + jpeg.dataLen.toNat = s.bytes.length ∧
    jpeg.dataLen.toNat = s.tail.length

section Fields

variable {α β : Type}

/-- A definition touches `quant[k]` only if it is of table `k`. -/
theorem apply_quant (k : Fin 4) (d : Def) (jpeg : JpegT) :
    (Def.apply jpeg d).quant k = ((Def.quantAt k d).map fun x => some x.1).getD (jpeg.quant k) := by
  cases d with
  | quant off t =>
    by_cases h : t.id = k
    · subst h
      simp [Def.apply, Def.quantAt, JpegT.setQuant]
    · simp [Def.apply, Def.quantAt, JpegT.setQuant, h, Function.update_of_ne (Ne.symm h)]
  | _ => rfl

theorem apply_huffman (k : Fin 8) (d : Def) (jpeg : JpegT) :
    (Def.apply jpeg d).huffman k = ((Def.huffmanAt k d).map fun x => some x.1).getD (jpeg.huffman k) := by
  cases d with
  | huffman off t =>
    by_cases h : t.slot = k
    · subst h
      simp [Def.apply, Def.huffmanAt, JpegT.setHuffman]
    · simp [Def.apply, Def.huffmanAt, JpegT.setHuffman, h, Function.update_of_ne (Ne.symm h)]
  | _ => rfl

/-- A field of `comp[k]` that only frame headers set. -/
theorem apply_comp (k : Fin 3) (get : CompT → α) (f : FrameComp → α)
    (hf : ∀ c (old : CompT),
      get { old with sampH := UInt8.ofNat c.sampH.val, sampV := UInt8.ofNat c.sampV.val, qt := c.qt } = f c)
    (ht : ∀ (old : CompT) dc ac, get { old with htDc := dc, htAc := ac } = get old) (d : Def) (jpeg : JpegT) :
    get ((Def.apply jpeg d).comp k) = ((Def.compAt k d).map f).getD (get (jpeg.comp k)) := by
  cases d with
  | comp c =>
    by_cases h : c.id = k
    · subst h
      simp [Def.apply, Def.compAt, JpegT.setComp, hf]
    · simp [Def.apply, Def.compAt, JpegT.setComp, h, Function.update_of_ne (Ne.symm h)]
  | tables c =>
    by_cases h : c.id = k
    · subst h
      simp [Def.apply, Def.compAt, JpegT.setTables, ht]
    · simp [Def.apply, Def.compAt, JpegT.setTables, Function.update_of_ne (Ne.symm h)]
  | _ => rfl

/-- A field of `comp[k]` that only scan headers set. -/
theorem apply_tables (k : Fin 3) (get : CompT → α) (f : ScanComp → α)
    (hf : ∀ (old : CompT) h v q, get { old with sampH := h, sampV := v, qt := q } = get old)
    (ht : ∀ c (old : CompT), get { old with htDc := UInt8.ofNat c.htDc.val, htAc := UInt8.ofNat c.htAc.val } = f c)
    (d : Def) (jpeg : JpegT) :
    get ((Def.apply jpeg d).comp k) = ((Def.tablesAt k d).map f).getD (get (jpeg.comp k)) := by
  cases d with
  | comp c =>
    by_cases h : c.id = k
    · subst h
      simp [Def.apply, Def.tablesAt, JpegT.setComp, hf]
    · simp [Def.apply, Def.tablesAt, JpegT.setComp, Function.update_of_ne (Ne.symm h)]
  | tables c =>
    by_cases h : c.id = k
    · subst h
      simp [Def.apply, Def.tablesAt, JpegT.setTables, ht]
    · simp [Def.apply, Def.tablesAt, JpegT.setTables, h, Function.update_of_ne (Ne.symm h)]
  | _ => rfl

end Fields

/-- **`parse_jpeg` decodes its whole format.** On any memory that holds a
well-formed stream, with its length, it succeeds, and the record holds what each
segment last defined and exactly the tail. -/
theorem parse_jpeg_decodes (s : Stream) (mem : Nat → UInt8) (h : At mem 0 s.bytes) :
    ∃ jpeg, (parseJpeg s.bytes.length).run mem = some jpeg ∧ Decodes mem s jpeg := by
  refine ⟨_, run_parseJpeg h, ?_⟩
  have hplaced := streamDefs_placed h
  have htail : s.bytes.length = (headerBytes s.segments s.scan).length + s.tail.length := List.length_append
  have hshort : s.bytes.length < 2 ^ 31 := s.short
  -- A field of the final record is that of the definitions' fold.
  have field {α β : Type} (get : JpegT → α) (sel : Def → Option β) (f : β → α)
      (hget : ∀ d jpeg, get (Def.apply jpeg d) = ((sel d).map f).getD (get jpeg)) :=
    get_foldl_apply get sel f hget s.defs .zeroed
  refine ⟨fun k => ?_, fun k off t ht => ?_, fun k => ?_, fun k off t ht => ?_, ?_, ?_, ?_, fun k => ?_, fun k => ?_,
    fun k => ?_, fun k => ?_, fun k => ?_, ?_, ?_⟩
  · refine (field (·.quant k) (Def.quantAt k) (fun x => some x.1) (apply_quant k)).trans ?_
    cases lastDef (Def.quantAt k) s.defs <;> rfl
  · obtain ⟨d, hd, hsel⟩ := lastDef_mem ht
    cases d with
    | quant off' t' =>
      simp only [Def.quantAt, Option.ite_none_right_eq_some, Option.some.injEq, Prod.mk.injEq] at hsel
      obtain ⟨-, rfl, rfl⟩ := hsel
      exact hplaced _ hd
    | _ => cases hsel
  · refine (field (·.huffman k) (Def.huffmanAt k) (fun x => some x.1) (apply_huffman k)).trans ?_
    cases lastDef (Def.huffmanAt k) s.defs <;> rfl
  · obtain ⟨d, hd, hsel⟩ := lastDef_mem ht
    cases d with
    | huffman off' t' =>
      simp only [Def.huffmanAt, Option.ite_none_right_eq_some, Option.some.injEq, Prod.mk.injEq] at hsel
      obtain ⟨-, rfl, rfl⟩ := hsel
      exact hplaced _ hd
    | _ => cases hsel
  · exact field (·.bits) Def.frameAt _ fun d jpeg => by cases d <;> rfl
  · exact field (·.width) Def.frameAt _ fun d jpeg => by cases d <;> rfl
  · exact field (·.height) Def.frameAt _ fun d jpeg => by cases d <;> rfl
  · exact field (·.comp k |>.sampH) (Def.compAt k) _
      (apply_comp k (·.sampH) (UInt8.ofNat ·.sampH.val) (fun _ _ => rfl) fun _ _ _ => rfl)
  · exact field (·.comp k |>.sampV) (Def.compAt k) _
      (apply_comp k (·.sampV) (UInt8.ofNat ·.sampV.val) (fun _ _ => rfl) fun _ _ _ => rfl)
  · exact field (·.comp k |>.qt) (Def.compAt k) _
      (apply_comp k (·.qt) (·.qt) (fun _ _ => rfl) fun _ _ _ => rfl)
  · exact field (·.comp k |>.htDc) (Def.tablesAt k) _
      (apply_tables k (·.htDc) (UInt8.ofNat ·.htDc.val) (fun _ _ _ _ => rfl) fun _ _ => rfl)
  · exact field (·.comp k |>.htAc) (Def.tablesAt k) _
      (apply_tables k (·.htAc) (UInt8.ofNat ·.htAc.val) (fun _ _ _ _ => rfl) fun _ _ => rfl)
  · refine (field (·.restartInterval) Def.restartAt id fun d jpeg => by cases d <;> rfl).trans ?_
    rw [Option.map_id]
    rfl
  · have hdata : (UInt32.ofNat (s.bytes.length - (headerBytes s.segments s.scan).length)).toNat = s.tail.length := by
      rw [UInt32.toNat_ofNat']
      omega
    refine ⟨(headerBytes s.segments s.scan).length, rfl, ?_, ?_, hdata⟩
    · have := (at_append.1 h).2
      rwa [Nat.zero_add] at this
    · show (headerBytes s.segments s.scan).length + (UInt32.ofNat _).toNat = _
      rw [hdata, htail]

theorem parse_jpeg_decodes_sample :
    ∃ jpeg, (parseJpeg sampleStream.bytes.length).run (fun i => sampleStream.bytes.getD i 0) = some jpeg ∧
      jpeg.width = 640 ∧ (jpeg.comp 0).sampH = 2 ∧ jpeg.restartInterval = 4 ∧ jpeg.huffman 0 = none ∧
      jpeg.dataLen = 2 := by
  have h : At (fun i => sampleStream.bytes.getD i 0) 0 sampleStream.bytes := fun i hi => by
    show sampleStream.bytes.getD (0 + i) 0 = _
    rw [Nat.zero_add, List.getD_eq_getElem?_getD, List.getElem?_eq_getElem hi, Option.getD_some]
  obtain ⟨jpeg, hrun, hd⟩ := parse_jpeg_decodes sampleStream _ h
  obtain ⟨off, -, -, -, hlen⟩ := hd.tail
  exact ⟨jpeg, hrun, hd.width.trans (by decide +kernel), (hd.sampH 0).trans (by decide +kernel),
    hd.restartInterval.trans (by decide +kernel), (hd.huffman 0).trans (by decide +kernel), UInt32.toNat_inj.1 hlen⟩

end Camview
