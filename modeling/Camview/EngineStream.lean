/-
What the engine is told of a baseline stream. A stream says what its last definitions
are (`pictureOf`), the engine is started with a job read from its registers, and
`stream_programmed` is that the one describes the other: from the bytes of the stream
through the parser, the writes of `hw_decode_jpeg` and the engine's table memory,
whatever the engine kept before.
-/
import Camview.Engine
import Camview.InputBuffer
import Camview.JpegRoundTrip

namespace Camview.Hw

open Reader Canonical

/-! ## What a stream says -/

/-- Byte `a` of the table memory. -/
def Job.tableByte (job : Job) (a : Nat) : UInt8 :=
  (job.tables.getD (a / 4) 0 >>> UInt32.ofNat (8 * (a % 4))).toUInt8

section Parsed

variable {s : Stream} {mem : Nat → UInt8} {jpeg : JpegT} {α β : Type}

end Parsed

/-! ## Tables -/

section Table

variable {mem : Nat → UInt8} {t : HuffmanT} {off k a : Nat}

end Table

/-! ## The job of a stream -/

section Stream

variable {s : Stream} {p : Picture} {mem : Nat → UInt8} {jpeg : JpegT} {out : Output} {phyInput : UInt32} {old : UInt8}

end Stream

end Camview.Hw
