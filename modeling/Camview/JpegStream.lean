/-
The baseline streams `parse_jpeg` is written for, as data: a list of segments, a
scan header and the entropy-coded data after it. What is well formed is a field,
so a `Stream` has a byte string and nothing in it to reject.

`Stream.defs` lists what the segments define, in order and with the place in the
stream; what a parser owes is, for each thing, its last definition.
-/
import Camview.Jpeg
import Mathlib.Algebra.BigOperators.Group.List.Basic
import Mathlib.Algebra.GroupWithZero.Nat

namespace Camview

/-- An 8-bit quantization table. -/
structure QuantT where
  id : Fin 4
  coeff : Vector UInt8 64

/-- A Huffman table, with as many symbols as its counts sum to. -/
structure HuffmanT where
  tableClass : Fin 2
  id : Fin 4
  num : Vector UInt8 16
  codes : List UInt8
  codes_length : codes.length = (num.toList.map UInt8.toNat).sum

/-- A component of a frame header. -/
structure FrameComp where
  id : Fin 3
  sampH : Fin 16
  sampV : Fin 16
  qt : UInt8

/-- A component of a scan header. -/
structure ScanComp where
  id : Fin 3
  htDc : Fin 16
  htAc : Fin 16

/-- A marker `switch (marker)` goes past, and not a fill byte. -/
def Ignored (marker : UInt8) : Prop :=
  marker ∉ rejectedMarkers ∧ marker ∉ knownMarkers ∧ marker ≠ 0xff

instance (marker : UInt8) : Decidable (Ignored marker) := inferInstanceAs (Decidable (_ ∧ _))

/-- A marker and what is under it, before the scan. -/
inductive Body
  | dqt (tables : List QuantT)
  | dht (tables : List HuffmanT)
  | sof0 (bits : UInt8) (height width : UInt16) (comps : List FrameComp) (few : comps.length ≤ 3)
  | dri (n : UInt16)
  | other (marker : UInt8) (payload : List UInt8) (ignored : Ignored marker)

/-! ## Bytes -/

/-- A 16-bit value, high byte first. -/
def be16Bytes (n : UInt16) : List UInt8 := [(n >>> 8).toUInt8, n.toUInt8]

/-- Two nibbles, the high one first. -/
def nibbles (hi lo : Fin 16) : UInt8 := UInt8.ofNat (16 * hi.val + lo.val)

def QuantT.bytes (t : QuantT) : List UInt8 := UInt8.ofNat t.id.val :: t.coeff.toList

/-- The counts and the symbols. -/
def HuffmanT.body (t : HuffmanT) : List UInt8 := t.num.toList ++ t.codes

def HuffmanT.bytes (t : HuffmanT) : List UInt8 := UInt8.ofNat (16 * t.tableClass.val + t.id.val) :: t.body

def FrameComp.bytes (c : FrameComp) : List UInt8 := [UInt8.ofNat (c.id.val + 1), nibbles c.sampH c.sampV, c.qt]

def ScanComp.bytes (c : ScanComp) : List UInt8 := [UInt8.ofNat (c.id.val + 1), nibbles c.htDc c.htAc]

def Body.marker : Body → UInt8
  | .dqt _ => mDqt
  | .dht _ => mDht
  | .sof0 .. => mSof0
  | .dri _ => mDri
  | .other marker .. => marker

def Body.payload : Body → List UInt8
  | .dqt tables => tables.flatMap QuantT.bytes
  | .dht tables => tables.flatMap HuffmanT.bytes
  | .sof0 bits height width comps _ =>
    [bits] ++ be16Bytes height ++ be16Bytes width ++ [UInt8.ofNat comps.length] ++ comps.flatMap FrameComp.bytes
  | .dri n => be16Bytes n
  | .other _ payload _ => payload

/-- Fill bytes, a marker, a length that counts itself, and the payload. -/
def segmentBytes (fill : Nat) (marker : UInt8) (payload : List UInt8) : List UInt8 :=
  List.replicate (fill + 1) 0xff ++ [marker] ++ be16Bytes (UInt16.ofNat (payload.length + 2)) ++ payload

/-- A segment after `fill + 1` fill bytes. -/
structure Segment where
  fill : Nat
  body : Body
  short : body.payload.length + 2 < 65536

def Segment.bytes (s : Segment) : List UInt8 := segmentBytes s.fill s.body.marker s.body.payload

/-- The scan header; `spectral` is what follows its components. -/
structure Scan where
  fill : Nat
  comps : List ScanComp
  few : comps.length < 256
  spectral : List UInt8
  short : (UInt8.ofNat comps.length :: comps.flatMap ScanComp.bytes ++ spectral).length + 2 < 65536

def Scan.payload (s : Scan) : List UInt8 :=
  UInt8.ofNat s.comps.length :: s.comps.flatMap ScanComp.bytes ++ s.spectral

def Scan.bytes (s : Scan) : List UInt8 := segmentBytes s.fill mSos s.payload

/-- What comes before the scan's data. -/
def headerBytes (segments : List Segment) (scan : Scan) : List UInt8 :=
  [0xff, mSoi] ++ segments.flatMap Segment.bytes ++ scan.bytes

/-- A baseline stream, short enough for an `int`. -/
structure Stream where
  segments : List Segment
  scan : Scan
  tail : List UInt8
  nonempty : tail ≠ []
  short : (headerBytes segments scan ++ tail).length < 2 ^ 31

def Stream.bytes (s : Stream) : List UInt8 := headerBytes s.segments s.scan ++ s.tail

/-! ## Definitions -/

/-- What one table or header field defines, a table with where it starts. -/
inductive Def
  | quant (off : Nat) (table : QuantT)
  | huffman (off : Nat) (table : HuffmanT)
  | frame (bits : UInt8) (width height : UInt16)
  | comp (comp : FrameComp)
  | tables (comp : ScanComp)
  | restart (n : UInt16)

/-- The tables of a `DQT` payload at `pos`; a table starts after its id. -/
def quantDefs (pos : Nat) : List QuantT → List Def
  | [] => []
  | t :: ts => .quant (pos + 1) t :: quantDefs (pos + t.bytes.length) ts

/-- The tables of a `DHT` payload at `pos`. -/
def huffmanDefs (pos : Nat) : List HuffmanT → List Def
  | [] => []
  | t :: ts => .huffman (pos + 1) t :: huffmanDefs (pos + t.bytes.length) ts

/-- What a segment defines whose payload is at `pos`. -/
def Body.defs (pos : Nat) : Body → List Def
  | .dqt tables => quantDefs pos tables
  | .dht tables => huffmanDefs pos tables
  | .sof0 bits height width comps _ => .frame bits width height :: comps.map .comp
  | .dri n => [.restart n]
  | .other .. => []

/-- What the segments from `pos` on define. -/
def segmentDefs (pos : Nat) : List Segment → List Def
  | [] => []
  | s :: ss => s.body.defs (pos + s.fill + 4) ++ segmentDefs (pos + s.bytes.length) ss

/-- Everything a stream defines, in order. -/
def Stream.defs (s : Stream) : List Def := segmentDefs 2 s.segments ++ s.scan.comps.map .tables

/-- The last definition that `sel` selects. -/
def lastDef {α : Type} (sel : Def → Option α) (ds : List Def) : Option α := (ds.filterMap sel).getLast?

/-- Table `k` of `quant`. -/
def Def.quantAt (k : Fin 4) : Def → Option (Nat × QuantT)
  | .quant off t => if t.id = k then some (off, t) else none
  | _ => none

/-- The place of a table in `huffman`: two to an id, the AC table after the DC table. -/
def HuffmanT.slot (t : HuffmanT) : Fin 8 := ⟨2 * t.id.val + t.tableClass.val, by omega⟩

/-- Table `k` of `huffman`. -/
def Def.huffmanAt (k : Fin 8) : Def → Option (Nat × HuffmanT)
  | .huffman off t => if t.slot = k then some (off, t) else none
  | _ => none

/-- The frame header. -/
def Def.frameAt : Def → Option (UInt8 × UInt16 × UInt16)
  | .frame bits width height => some (bits, width, height)
  | _ => none

/-- A component's sampling factors and quantization table. -/
def Def.compAt (k : Fin 3) : Def → Option FrameComp
  | .comp c => if c.id = k then some c else none
  | _ => none

/-- A component's Huffman tables. -/
def Def.tablesAt (k : Fin 3) : Def → Option ScanComp
  | .tables c => if c.id = k then some c else none
  | _ => none

/-- The restart interval. -/
def Def.restartAt : Def → Option UInt16
  | .restart n => some n
  | _ => none

/-- Two tables of one id, an application segment, a frame, an AC and a DC table with codes,
and a restart interval. -/
def sampleStream : Stream where
  segments :=
    [⟨0, .dqt [⟨0, Vector.replicate 64 1⟩, ⟨1, Vector.replicate 64 2⟩], by decide +kernel⟩,
      ⟨2, .other 0xe0 [0x4a, 0x46] (by decide), by decide⟩,
      ⟨0, .sof0 8 480 640 [⟨0, 2, 1, 0⟩, ⟨1, 1, 1, 1⟩] (by decide), by decide⟩,
      ⟨0, .dht [⟨1, 0, #v[0, 2, 1, 3, 3, 2, 4, 3, 5, 5, 4, 4, 0, 0, 1, 125], (List.range 162).map UInt8.ofNat,
          by decide +kernel⟩,
        ⟨0, 1, #v[0, 3, 1, 1, 1, 1, 1, 1, 1, 1, 1, 0, 0, 0, 0, 0], (List.range 12).map UInt8.ofNat,
          by decide +kernel⟩], by decide +kernel⟩,
      ⟨0, .dri 4, by decide⟩,
      ⟨0, .dqt [⟨0, Vector.replicate 64 3⟩], by decide +kernel⟩]
  scan := ⟨0, [⟨0, 0, 1⟩], by decide, [0, 63, 0], by decide⟩
  tail := [0xab, 0xcd]
  nonempty := by decide
  short := by decide +kernel

end Camview
