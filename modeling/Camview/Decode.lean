/-
`jpeg_dec_main.c`: what a frame delivered to `hw_decode_jpeg_main` does. The
buffers are laid out for the first frame that is accepted; every frame is then
parsed, given an output buffer, and programmed into the video engine's
registers.

Registers are written, never read, so a decode is the list of its accesses; the
tables are read through the parsed pointers. A `NULL` table ends the process, and
so does a sampling factor of zero, which `set_size` divides by.
The rest of the world answers in a `Frame`: the bytes, the addresses the kernel
gives, the number from `get_buffer_number`.
-/
import Camview.Jpeg
import Camview.PlaneLayout
import Camview.Transition

namespace Camview.Hw

open Reader

/-! ## Registers -/

def veOutputFormat : Nat := 0x0ec
def veMpegCtrl : Nat := 0x114
def veMpegTrigger : Nat := 0x118
def veMpegStatus : Nat := 0x11c
def veMpegVldAddr : Nat := 0x128
def veMpegVldOffset : Nat := 0x12c
def veMpegVldLen : Nat := 0x130
def veMpegVldEnd : Nat := 0x134
def veMpegIqMinInput : Nat := 0x180
def veMpegJpegSize : Nat := 0x1b8
def veMpegJpegResInt : Nat := 0x1c0
def veMpegRotLuma : Nat := 0x1cc
def veMpegRotChroma : Nat := 0x1d0
def veMpegSdrotCtrl : Nat := 0x1d4
def veMpegRamWritePtr : Nat := 0x1e0
def veMpegRamWriteData : Nat := 0x1e4

/-- What is done to the engine. -/
inductive Access
  | writel (value : UInt32) (reg : Nat)
  | writeb (value : UInt8) (reg : Nat)
  /-- `ve_wait(1)` -/
  | wait
deriving DecidableEq, Repr

/-- The write that starts the engine. -/
def start : Access := .writeb 0x0e veMpegTrigger

/-! ## Tables -/

/-- 64 coefficients from `off`, numbered from `base`. -/
def writeCoeffs (base off : Nat) : Reader (List Access) :=
  (List.range 64).mapM fun i => do
    let coeff ← byte (off + i)
    pure (.writel (UInt32.ofNat (base + i) <<< 8 ||| coeff.toUInt32) veMpegIqMinInput)

/-- `set_quantization_tables`; `none` when it dereferences `NULL`. -/
def setQuantizationTables (jpeg : JpegT) : Reader (Option (List Access)) :=
  match jpeg.quant 0, jpeg.quant 1 with
  | some q0, some q1 => do
    let first ← writeCoeffs 64 q0
    let second ← writeCoeffs 0 q1
    pure (some (first ++ second))
  | _, _ => pure none

/-- A half-word of `buffer`, as its two bytes. -/
def halfWord (k : Nat) (value : UInt16) : List (Nat × UInt8) :=
  [(2 * k, value.toUInt8), (2 * k + 1, (value >>> 8).toUInt8)]

/-- The first loop over the counts of table `i` at `off`, `n` of them left from
`j` on: its writes, and `sum` and `last` at the end. -/
def countLoop (i off : Nat) : Nat → Nat → Nat → Nat → Reader (List (Nat × UInt8) × Nat × Nat)
  | 0, _, sum, last => pure ([], sum, last)
  | n + 1, j, sum, last => do
    let num ← byte (off + j)
    let (writes, sum', last') ← countLoop i off n (j + 1) (sum + num.toNat) (if num ≠ 0 then j else last)
    pure ((i * 64 + 32 + j, UInt8.ofNat sum) :: writes, sum', last')

/-- The loops that write the first code of each length, and 0xffff past the last. -/
def codeLoop (i off last : Nat) : Nat → Nat → Nat → Reader (List (Nat × UInt8))
  | 0, _, _ => pure []
  | n + 1, j, sum =>
    if j ≤ last then do
      let num ← byte (off + j)
      let writes ← codeLoop i off last n (j + 1) ((sum + num.toNat) * 2)
      pure (halfWord (i * 32 + j) (UInt16.ofNat sum) ++ writes)
    else do
      let writes ← codeLoop i off last n (j + 1) sum
      pure (halfWord (i * 32 + j) 0xffff ++ writes)

/-- What the loop body writes to `buffer`, byte by byte, for table `i` at `off`. -/
def huffmanWrites (i off : Nat) : Reader (List (Nat × UInt8)) := do
  let (counts, sum, last) ← countLoop i off 16 0 0 0
  let codes ← (List.range sum).mapM fun k => do
    let code ← byte (off + 16 + k)
    pure (4 * (256 + 64 * i) + k, code)
  let first ← codeLoop i off last 16 0 0
  pure (counts ++ codes ++ first)

/-- Byte `k` of the zeroed `buffer` after the writes. -/
def bufferByte (writes : List (Nat × UInt8)) (k : Nat) : UInt8 :=
  ((writes.filter (·.1 = k)).getLast?.map Prod.snd).getD 0

/-- `buffer[k]`, little endian. -/
def bufferWord (writes : List (Nat × UInt8)) (k : Nat) : UInt32 :=
  (bufferByte writes (4 * k)).toUInt32 ||| (bufferByte writes (4 * k + 1)).toUInt32 <<< 8 |||
    (bufferByte writes (4 * k + 2)).toUInt32 <<< 16 ||| (bufferByte writes (4 * k + 3)).toUInt32 <<< 24

/-- `set_huffman_tables`. -/
def setHuffmanTables (jpeg : JpegT) : Reader (List Access) := do
  let writes ← ([0, 1, 2, 3] : List (Fin 8)).mapM fun i =>
    match jpeg.huffman i with
    | some off => huffmanWrites i.val off
    | none => pure []
  pure ((List.range 512).map fun k => .writel (bufferWord writes.flatten k) veMpegRamWriteData)

/-! ## Format and size -/

/-- The sampling factors of the first component in one byte. -/
def fmt (jpeg : JpegT) : UInt8 := (jpeg.comp 0).sampH <<< 4 ||| (jpeg.comp 0).sampV

/-- `get_format`. -/
def getFormat (jpeg : JpegT) : UInt8 :=
  if fmt jpeg ∈ [0x11, 0x21, 0x12, 0x22] then fmt jpeg else 0

/-- `set_format`. -/
def setFormat (jpeg : JpegT) : List Access :=
  if fmt jpeg = 0x11 then [.writeb 0x1b (veMpegTrigger + 0x3)]
  else if fmt jpeg = 0x21 then [.writeb 0x13 (veMpegTrigger + 0x3)]
  else if fmt jpeg = 0x12 then [.writeb 0x23 (veMpegTrigger + 0x3)]
  else if fmt jpeg = 0x22 then [.writeb 0x03 (veMpegTrigger + 0x3)]
  else []

/-- `set_size`; `none` when it divides by zero. -/
def setSize (jpeg : JpegT) : Option (List Access) :=
  if (jpeg.comp 0).sampV = 0 ∨ (jpeg.comp 0).sampH = 0 then none
  else
    let h := sizeUnits jpeg.height (jpeg.comp 0).sampV
    let w := sizeUnits jpeg.width (jpeg.comp 0).sampH
    some [.writel (h.toUInt32 <<< 16 ||| w.toUInt32) veMpegJpegSize]

/-! ## hw_decode_jpeg -/

/-- `luma_output`, `chroma_u_output` and `chroma_v_output` of one buffer. -/
structure Output where
  luma : UInt32
  chromaU : UInt32
  chromaV : UInt32
deriving DecidableEq, Repr

/-- `chroma_v_output - chroma_u_output`, as an `int`. -/
def Output.vOffset (out : Output) : Int32 := (out.chromaV - out.chromaU).toInt32

/-- The output addresses `hw_decode_jpeg` decodes to. -/
def Output.Usable (out : Output) : Prop := ¬ (out.luma = 0 ∨ out.chromaU = 0 ∨ out.vOffset = 0) ∧ ¬ out.vOffset < 0

instance (out : Output) : Decidable out.Usable := inferInstanceAs (Decidable (_ ∧ _))

/-- `hw_decode_jpeg`; `none` when it divides by zero or dereferences `NULL`. -/
def hwDecodeJpeg (out : Output) (phyInput : UInt32) (jpeg : JpegT) : Reader (Option (List Access)) :=
  if ¬ out.Usable then pure (some [])
  else do
    let inputSize := (jpeg.dataLen + 65535) &&& ~~~65535
    let stride := lineStride jpeg.width
    let outputSize := stride * ((jpeg.height.toUInt32 + 31) &&& ~~~31)
    match setSize jpeg with
    | none => pure none
    | some size =>
      let setup : List Access :=
        [.writel ((0x3 : UInt32) <<< 4 ||| 0x3) veOutputFormat,
          .writel (out.vOffset.toUInt32 ||| (0x2 : UInt32) <<< 30) 0xe8,
          .writel outputSize 0xc4,
          .writel (stride ||| stride <<< 16) 0xc8,
          .writel jpeg.restartInterval.toUInt32 veMpegJpegResInt] ++
        setFormat jpeg ++
        [.writel out.luma veMpegRotLuma, .writel out.chromaU veMpegRotChroma] ++
        size ++
        [.writel 0 veMpegSdrotCtrl,
          .writel (phyInput + inputSize - 1) veMpegVldEnd,
          .writel 0x7c veMpegCtrl,
          .writel (0 * 8) veMpegVldOffset,
          .writel (jpeg.dataLen * 8) veMpegVldLen,
          .writel (phyInput ||| 0x70000000) veMpegVldAddr]
      match ← setQuantizationTables jpeg with
      | none => pure none
      | some quant =>
        let huffman ← setHuffmanTables jpeg
        pure (some (setup ++ quant ++ [.writel 0 veMpegRamWritePtr] ++ huffman ++
          [start, .wait, .writel 0xc00f veMpegStatus]))

/-! ## hw_decode_jpeg_main -/

/-- A frame, and the answers of the rest of the world while it is decoded.
`unsetDivisor` is what `subsampling_divisor` holds where `init_display` does not
set it; `displayFails` that `init_display` ends the process. -/
structure Frame where
  data : Nat → UInt8
  dataLen : Nat
  unsetDivisor : UInt8
  displayFails : Bool
  dmaVaddr1 : UInt32
  dmaVaddr2 : UInt32
  dmaVaddr3 : UInt32
  phyInput : UInt32
  bufferNumber : UInt8

/-- The variables of `jpeg_dec_main.c`, and the history of a session: the frame
the display was initialised with, and what was decoded. -/
structure State where
  displayInitialized : Bool
  output1 : Output
  output2 : Output
  output3 : Output
  output : Output
  writeBuffer : UInt8
  phyInput : UInt32
  exited : Bool
  initFrame : Option JpegT
  decoded : List (JpegT × List Access)

/-- The `jpeg_t` a frame parses to. -/
def Frame.parse (f : Frame) : Option JpegT := (parseJpeg f.dataLen).run f.data

/-- The planes of a buffer at a DMA address. -/
def planesAt (vaddr : UInt32) (L : PlaneLayout) : Output :=
  let luma := vaddr - 0xc0000000
  ⟨luma, luma + L.uOffset, luma + L.vOffset⟩

/-- The layout `init_display` leaves, also for a format it does not know. -/
def displayLayout (f : Frame) (jpeg : JpegT) : PlaneLayout :=
  (initLayout jpeg.width.toUInt32 jpeg.height.toUInt32 (getFormat jpeg)).getD
    (planeLayout jpeg.width.toUInt32 jpeg.height.toUInt32 f.unsetDivisor)

/-- `hw_init_display`. -/
def hwInitDisplay (f : Frame) (jpeg : JpegT) (s : State) : State :=
  let L := displayLayout f jpeg
  { s with
    output1 := planesAt f.dmaVaddr1 L
    output2 := planesAt f.dmaVaddr2 L
    output3 := planesAt f.dmaVaddr3 L
    output := ⟨0, 0, 0⟩
    displayInitialized := true
    initFrame := some jpeg }

/-- The outputs `get_buffer` selects. -/
def State.select (s : State) (bufferNumber : UInt8) : Output :=
  if bufferNumber = 2 then s.output2 else if bufferNumber = 3 then s.output3 else s.output1

/-- `get_buffer`. -/
def getBuffer (bufferNumber : UInt8) (s : State) : State :=
  { s with writeBuffer := bufferNumber, output := s.select bufferNumber }

/-- From `phy_input = ve_virt2phys(input_buffer)` to the end. -/
def decodeInto (f : Frame) (jpeg : JpegT) (s : State) : State :=
  let s := getBuffer f.bufferNumber { s with phyInput := f.phyInput }
  match (hwDecodeJpeg s.output s.phyInput jpeg).run f.data with
  | none => { s with exited := true }
  | some accesses => { s with decoded := s.decoded ++ [(jpeg, accesses)] }

theorem decodeInto_none {f : Frame} {jpeg : JpegT} {s : State}
    (h : (hwDecodeJpeg (s.select f.bufferNumber) f.phyInput jpeg).run f.data = none) :
    decodeInto f jpeg s = { getBuffer f.bufferNumber { s with phyInput := f.phyInput } with exited := true } := by
  have h : (hwDecodeJpeg (getBuffer f.bufferNumber { s with phyInput := f.phyInput }).output f.phyInput jpeg).run f.data =
      none := h
  unfold decodeInto
  dsimp only
  split
  · rfl
  · next accesses hr => cases h.symm.trans hr

theorem decodeInto_some {f : Frame} {jpeg : JpegT} {s : State} {accesses : List Access}
    (h : (hwDecodeJpeg (s.select f.bufferNumber) f.phyInput jpeg).run f.data = some accesses) :
    decodeInto f jpeg s =
      { getBuffer f.bufferNumber { s with phyInput := f.phyInput } with
        decoded := s.decoded ++ [(jpeg, accesses)] } := by
  have h : (hwDecodeJpeg (getBuffer f.bufferNumber { s with phyInput := f.phyInput }).output f.phyInput jpeg).run f.data =
      some accesses := h
  unfold decodeInto
  dsimp only
  split
  · next hr => cases h.symm.trans hr
  · next hr =>
    cases h.symm.trans hr
    rfl

/-- The display stays initialised until `hw_close`. -/
@[simp] theorem decodeInto_displayInitialized (f : Frame) (jpeg : JpegT) (s : State) :
    (decodeInto f jpeg s).displayInitialized = s.displayInitialized := by
  unfold decodeInto
  dsimp only
  split
  · rfl
  · rfl

/-- `hw_decode_jpeg_main`. -/
def hwDecodeJpegMain (f : Frame) (s : State) : State :=
  match f.parse with
  | none => s
  | some jpeg =>
    if s.displayInitialized then decodeInto f jpeg s
    else if getFormat jpeg = 0 then s
    else if f.displayFails then { s with exited := true }
    else decodeInto f jpeg (hwInitDisplay f jpeg s)

/-- The frames of one session, from `hw_init` on. -/
def machine : Machine State Frame where
  init s := s.displayInitialized = false ∧ s.exited = false ∧ s.initFrame = none ∧ s.decoded = []
  step s f := if s.exited then none else some (hwDecodeJpegMain f s)

end Camview.Hw
