/-
`parse_jpeg` and the record it fills. The parser is a `Reader`: `data` is a
memory that answers every index, `len` is the length the caller gives. An `int`
position is a natural number, exact: a sum past the range of `int` is undefined
in C and does not wrap here.

Pointers into `data` are its offsets, `none` for `NULL`. On failure the record is
dropped, as `hw_decode_jpeg_main` drops it.
-/
import Camview.Reader
import Mathlib.Logic.Function.Basic

namespace Camview

open Reader

/-! ## jpeg_t -/

/-- `struct comp_t`. -/
structure CompT where
  sampH : UInt8
  sampV : UInt8
  qt : UInt8
  htAc : UInt8
  htDc : UInt8
deriving DecidableEq, Repr

/-- `struct jpeg_t`. -/
structure JpegT where
  bits : UInt8
  width : UInt16
  height : UInt16
  comp : Fin 3 → CompT
  quant : Fin 4 → Option Nat
  huffman : Fin 8 → Option Nat
  restartInterval : UInt16
  data : Option Nat
  dataLen : UInt32

/-- After `memset(&jpeg, 0, sizeof(jpeg))`. -/
def JpegT.zeroed : JpegT where
  bits := 0
  width := 0
  height := 0
  comp := fun _ => ⟨0, 0, 0, 0, 0⟩
  quant := fun _ => none
  huffman := fun _ => none
  restartInterval := 0
  data := none
  dataLen := 0

/-- `jpeg->quant[id] = ...`. -/
def JpegT.setQuant (id : Fin 4) (off : Nat) (jpeg : JpegT) : JpegT :=
  { jpeg with quant := Function.update jpeg.quant id (some off) }

/-- `jpeg->huffman[id] = ...`. -/
def JpegT.setHuffman (id : Fin 8) (off : Nat) (jpeg : JpegT) : JpegT :=
  { jpeg with huffman := Function.update jpeg.huffman id (some off) }

/-- `jpeg->bits`, `jpeg->width` and `jpeg->height`. -/
def JpegT.setFrame (bits : UInt8) (width height : UInt16) (jpeg : JpegT) : JpegT :=
  { jpeg with bits := bits, width := width, height := height }

/-- The fields of `jpeg->comp[id]` a frame header sets. -/
def JpegT.setComp (id : Fin 3) (sampH sampV qt : UInt8) (jpeg : JpegT) : JpegT :=
  { jpeg with comp := Function.update jpeg.comp id { jpeg.comp id with sampH := sampH, sampV := sampV, qt := qt } }

/-- The fields of `jpeg->comp[id]` a scan header sets. -/
def JpegT.setTables (id : Fin 3) (htDc htAc : UInt8) (jpeg : JpegT) : JpegT :=
  { jpeg with comp := Function.update jpeg.comp id { jpeg.comp id with htDc := htDc, htAc := htAc } }

/-- `jpeg->restart_interval`. -/
def JpegT.setRestart (n : UInt16) (jpeg : JpegT) : JpegT := { jpeg with restartInterval := n }

/-- `jpeg->data = &data[pos]; jpeg->data_len = len - pos`. -/
def JpegT.setData (len pos : Nat) (jpeg : JpegT) : JpegT :=
  { jpeg with data := some pos, dataLen := UInt32.ofNat (len - pos) }

/-! ## Markers -/

def mSof0 : UInt8 := 0xc0
def mDht : UInt8 := 0xc4
def mSoi : UInt8 := 0xd8
def mSos : UInt8 := 0xda
def mDqt : UInt8 := 0xdb
def mDri : UInt8 := 0xdd

/-- The markers `parse_jpeg` gives up on: `M_DAC`, the frames other than
`M_SOF0`, `M_SOI` and `M_EOI`. -/
def rejectedMarkers : List UInt8 :=
  [0xcc, 0xc1, 0xc2, 0xc3, 0xc5, 0xc6, 0xc7, 0xc9, 0xca, 0xcb, 0xcd, 0xce, 0xcf, mSoi, 0xd9]

/-! ## Tables -/

/-- The 16-bit value at `pos`, high byte first. -/
def be16 (pos : Nat) : Reader UInt16 := do
  let hi ← byte pos
  let lo ← byte (pos + 1)
  pure (hi.toUInt16 <<< 8 ||| lo.toUInt16)

theorem toNat_be16 (hi lo : UInt8) : (hi.toUInt16 <<< 8 ||| lo.toUInt16).toNat = 256 * hi.toNat + lo.toNat := by
  have h1 := hi.toNat_lt
  have h2 := lo.toNat_lt
  rw [UInt16.toNat_or, UInt16.toNat_shiftLeft, UInt8.toNat_toUInt16, UInt8.toNat_toUInt16]
  show hi.toNat <<< 8 % 2 ^ 16 ||| lo.toNat = _
  rw [Nat.mod_eq_of_lt (by omega), ← Nat.shiftLeft_add_eq_or_of_lt (by omega)]
  omega

/-- `process_dqt` from `pos` on, its `data` at `base`. -/
def processDqt (base : Nat) (len : Int) (pos : Nat) (jpeg : JpegT) : Reader (Option JpegT) :=
  if pos < len then do
    let pq ← byte (base + pos)
    if pq >>> 4 ≠ 0 then pure none
    else
      let tq ← byte (base + pos)
      processDqt base len (pos + 65) (jpeg.setQuant (Fin.ofNat 4 (tq &&& 0x03).toNat) (base + pos + 1))
  else pure (some jpeg)
termination_by (len - pos).toNat

/-- The sum of the first `n` counts of the table at `pos`. -/
def sumNum (pos : Nat) : Nat → Reader Nat
  | 0 => pure 0
  | n + 1 => do
    let sum ← sumNum pos n
    let num ← byte (pos + n)
    pure (sum + num.toNat)

/-- `process_dht` from `pos` on, its `data` at `base`. -/
def processDht (base : Nat) (len : Int) (pos : Nat) (jpeg : JpegT) : Reader JpegT :=
  if pos < len then do
    let th ← byte (base + pos)
    let tc ← byte (base + pos)
    let id := (th &&& 0x03) <<< 1 ||| (tc &&& 0x10) >>> 4
    let sum ← sumNum (base + pos + 1) 16
    processDht base len (pos + 17 + sum) (jpeg.setHuffman (Fin.ofNat 8 id.toNat) (base + pos + 1))
  else pure jpeg
termination_by (len - pos).toNat

/-! ## Headers -/

/-- The loop over the components of a frame header at `pos`, from `i` on. -/
def frameComps (pos i : Nat) (jpeg : JpegT) : Reader (Option JpegT) := do
  let n ← byte (pos + 7)
  if i < n.toNat then
    let id ← byte (pos + 8 + 3 * i)
    if h : (id - 1).toNat < 3 then
      let sampH ← byte (pos + 9 + 3 * i)
      let sampV ← byte (pos + 9 + 3 * i)
      let qt ← byte (pos + 10 + 3 * i)
      frameComps pos (i + 1) (jpeg.setComp ⟨(id - 1).toNat, h⟩ (sampH >>> 4) (sampV &&& 0x0f) qt)
    else pure none
  else pure (some jpeg)
termination_by 256 - i
decreasing_by
  have := n.toNat_lt
  omega

/-- The loop over the components of a scan header at `pos`, from `i` on. -/
def scanComps (pos i : Nat) (jpeg : JpegT) : Reader (Option JpegT) := do
  let n ← byte (pos + 2)
  if i < n.toNat then
    let id ← byte (pos + 3 + 2 * i)
    if h : (id - 1).toNat < 3 then
      let htDc ← byte (pos + 4 + 2 * i)
      let htAc ← byte (pos + 4 + 2 * i)
      scanComps pos (i + 1) (jpeg.setTables ⟨(id - 1).toNat, h⟩ (htDc >>> 4) (htAc &&& 0x0f))
    else pure none
  else pure (some jpeg)
termination_by 256 - i
decreasing_by
  have := n.toNat_lt
  omega

/-- `switch (marker)`, with what `sos` is afterwards; `pos` is at the length. -/
def switchMarker (marker : UInt8) (pos : Nat) (segLen : UInt16) (jpeg : JpegT) : Reader (Option (JpegT × Bool)) :=
  if marker = mDqt then do
    let r ← processDqt (pos + 2) (segLen.toNat - 2) 0 jpeg
    pure (r.map (·, false))
  else if marker = mDht then do
    let r ← processDht (pos + 2) (segLen.toNat - 2) 0 jpeg
    pure (some (r, false))
  else if marker = mSof0 then do
    let bits ← byte (pos + 2)
    let width ← be16 (pos + 5)
    let height ← be16 (pos + 3)
    let r ← frameComps pos 0 (jpeg.setFrame bits width height)
    pure (r.map (·, false))
  else if marker = mDri then do
    let n ← be16 (pos + 2)
    pure (some (jpeg.setRestart n, false))
  else if marker = mSos then do
    let r ← scanComps pos 0 jpeg
    pure (r.map (·, true))
  else if marker ∈ rejectedMarkers then pure none
  else pure (some (jpeg, false))

section Switch

variable (pos : Nat) (segLen : UInt16) (jpeg : JpegT)

theorem switchMarker_dqt : switchMarker mDqt pos segLen jpeg = (do
    let r ← processDqt (pos + 2) (segLen.toNat - 2) 0 jpeg
    pure (r.map (·, false))) := rfl

theorem switchMarker_dht : switchMarker mDht pos segLen jpeg = (do
    let r ← processDht (pos + 2) (segLen.toNat - 2) 0 jpeg
    pure (some (r, false))) := rfl

theorem switchMarker_sof0 : switchMarker mSof0 pos segLen jpeg = (do
    let bits ← byte (pos + 2)
    let width ← be16 (pos + 5)
    let height ← be16 (pos + 3)
    let r ← frameComps pos 0 (jpeg.setFrame bits width height)
    pure (r.map (·, false))) := rfl

theorem switchMarker_dri : switchMarker mDri pos segLen jpeg = (do
    let n ← be16 (pos + 2)
    pure (some (jpeg.setRestart n, false))) := rfl

theorem switchMarker_sos : switchMarker mSos pos segLen jpeg = (do
    let r ← scanComps pos 0 jpeg
    pure (r.map (·, true))) := rfl

/-- The markers the switch has a case for that goes on. -/
def knownMarkers : List UInt8 := [mDqt, mDht, mSof0, mDri, mSos]

theorem switchMarker_other {marker : UInt8} (h : marker ∉ knownMarkers) :
    switchMarker marker pos segLen jpeg =
      if marker ∈ rejectedMarkers then pure none else pure (some (jpeg, false)) := by
  simp only [knownMarkers, List.mem_cons, List.not_mem_nil, or_false, not_or] at h
  obtain ⟨h1, h2, h3, h4, h5⟩ := h
  rw [switchMarker, if_neg h1, if_neg h2, if_neg h3, if_neg h4, if_neg h5]

end Switch

/-! ## parse_jpeg -/

/-- `while (pos < len && data[pos] == 0xff) pos++`. -/
def skipFill (len pos : Nat) : Reader { q // pos ≤ q } :=
  if pos < len then do
    let b ← byte pos
    if b = 0xff then
      let q ← skipFill len (pos + 1)
      pure ⟨q.1, by omega⟩
    else pure ⟨pos, Nat.le_refl pos⟩
  else pure ⟨pos, Nat.le_refl pos⟩
termination_by len - pos

/-- `while (!sos)`, from `pos` on. -/
def parseSegments (len pos : Nat) (jpeg : JpegT) : Reader (Option JpegT) := do
  let q ← skipFill len pos
  if q.1 + 2 < len then
    let marker ← byte q.1
    let segLen ← be16 (q.1 + 1)
    if q.1 + 1 + segLen.toNat < len then
      let r ← switchMarker marker (q.1 + 1) segLen jpeg
      match r with
      | none => pure none
      | some (jpeg, true) => pure (some (jpeg.setData len (q.1 + 1 + segLen.toNat)))
      | some (jpeg, false) => parseSegments len (q.1 + 1 + segLen.toNat) jpeg
    else pure none
  else pure none
termination_by len - pos
decreasing_by
  have := q.2
  omega

/-- `parse_jpeg` on a zeroed record. -/
def parseJpeg (len : Nat) : Reader (Option JpegT) :=
  if len < 2 then pure none
  else do
    let b0 ← byte 0
    if b0 ≠ 0xff then pure none
    else
      let b1 ← byte 1
      if b1 ≠ mSoi then pure none else parseSegments len 2 .zeroed

end Camview
