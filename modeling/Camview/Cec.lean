/-
`cec_controls.c`: the messages the TV sends, the queue `rx_loop` hands them over
in, and what `poll_cec_events` asks `apply_value` for.

A node of the queue is a cell of a heap; `malloc` may answer any address that is
not allocated. A section under `message_queue_mutex` is one step, and so is every
other use of a node. Using an address that is not allocated is a `fault`.
-/
import Camview.LinkedQueue
import Camview.Transition

namespace Camview.Cec

/-- `struct cec_msg`, as far as it is looked at. -/
structure CecMsg where
  len : UInt32
  msg : Fin 16 → UInt8

/-- `cec_msg_initiator`. -/
def cecMsgInitiator (msg : CecMsg) : UInt8 := msg.msg 0 >>> 4

/-- `CEC_LOG_ADDR_TV`. -/
def cecLogAddrTv : UInt8 := 0

/-- `struct message_node` without its `next`, which is the cell's. -/
structure Message where
  code : UInt8
  data1 : UInt8
  data2 : UInt8
  hasData2 : UInt8
deriving DecidableEq, Repr

/-- What `add_message_to_queue` fills a node with. -/
def Message.ofMsg (msg : CecMsg) : Message where
  code := msg.msg 1
  data1 := msg.msg 2
  data2 := msg.msg 3
  hasData2 := if 4 ≤ msg.len then 1 else 0

/-! ## Codes -/

def cecDevContrastCode : UInt8 := 0x20
def cecDevHueCode : UInt8 := 0x1d
def cecDevLuminosityCode : UInt8 := 0x21
def cecDevPivotCode : UInt8 := 0x1f
def cecDevSaturationCode : UInt8 := 0x1e
def cecDevShutterSpeedCode : UInt8 := 0x57
def cecDevTintCode : UInt8 := 0x55
def cecDevWhiteBalanceTemp : UInt8 := 0x54

/-! ## Processing -/

/-- The static variables `contrast_data2` to `shutter_data2`. -/
inductive Data2
  | contrast
  | saturation
  | pivot
  | luma
  | shutter
deriving DecidableEq, Repr

/-- The arguments of `apply_value` after the device. -/
structure ApplyValue where
  name : String
  min : Int
  max : Int
  val : Int
deriving DecidableEq, Repr

/-- A value of two bytes, the high one kept from the last message that had it. -/
def processData2 (k : Data2) (name : String) (min max : Int) (msg : Message) (d : Data2 → UInt8) :
    (Data2 → UInt8) × ApplyValue :=
  let d := if msg.hasData2 ≠ 0 then Function.update d k msg.data2 else d
  (d, ⟨name, min, max, ((d k).toNat <<< 8 ||| msg.data1.toNat : Nat)⟩)

/-- `process_contrast`. -/
def processContrast := processData2 .contrast "Contrast" 0 4096

/-- `process_saturation`. -/
def processSaturation := processData2 .saturation "Saturation" 0 4096

/-- `process_wbt`. -/
def processWbt (msg : Message) : ApplyValue :=
  ⟨"White Balance Temperature", 0, 0, ((msg.data1.toNat : Int) - 50) * 50 + 2500⟩

/-- `process_pivot`. -/
def processPivot := processData2 .pivot "Bright" 0 2048

/-- `process_luma`. -/
def processLuma := processData2 .luma "Gamma" 0 2048

/-- `process_shutter_speed`. -/
def processShutterSpeed := processData2 .shutter "Gain" 41667 500

/-- `switch (node->code)`: the call of `apply_value` it makes, if any. -/
def process (msg : Message) (d : Data2 → UInt8) : (Data2 → UInt8) × Option ApplyValue :=
  if msg.code = cecDevContrastCode then (processContrast msg d).map id some
  else if msg.code = cecDevHueCode then (d, none)
  else if msg.code = cecDevLuminosityCode then (processLuma msg d).map id some
  else if msg.code = cecDevPivotCode then (processPivot msg d).map id some
  else if msg.code = cecDevSaturationCode then (processSaturation msg d).map id some
  else if msg.code = cecDevShutterSpeedCode then (processShutterSpeed msg d).map id some
  else if msg.code = cecDevTintCode then (d, none)
  else if msg.code = cecDevWhiteBalanceTemp then (d, some (processWbt msg))
  else (d, none)

/-! ## The threads -/

/-- Where `rx_loop` is. -/
inductive RxPc
  | idle
  /-- `add_message_to_queue` before its lock, with the node it filled -/
  | adding (node : Nat)
deriving DecidableEq, Repr

/-- Where the control thread is. -/
inductive ControlPc
  | outside
  /-- `poll_cec_events` before its lock -/
  | polling
  /-- `switch (node->code)` -/
  | processing (node : Nat)
  /-- `free(node)` -/
  | freeing (node : Nat)
deriving DecidableEq, Repr

/-- The variables of `cec_controls.c`, and the history of a session: the messages
received from the TV and the calls of `apply_value`. -/
structure State where
  heap : Heap Message
  messageQueueStart : Option Nat
  messageQueueEnd : Option Nat
  data2 : Data2 → UInt8
  rx : RxPc
  control : ControlPc
  fault : Bool
  received : List CecMsg
  applied : List ApplyValue

/-- The top of `add_message_to_queue`, its node at `node`. -/
def newNode (msg : CecMsg) (node : Nat) (s : State) : State :=
  { s with
    heap := Function.update s.heap node (some ⟨.ofMsg msg, none⟩)
    rx := .adding node
    received := s.received ++ [msg] }

/-- The section of `add_message_to_queue`. -/
def addMessageToQueue (node : Nat) (s : State) : State :=
  match s.messageQueueEnd with
  | none => { s with messageQueueStart := some node, messageQueueEnd := some node, rx := .idle }
  | some last =>
    match s.heap last with
    | none => { s with fault := true }
    | some cell =>
      { s with
        heap := Function.update s.heap last (some { cell with next := some node })
        messageQueueEnd := some node
        rx := .idle }

/-- The section of `poll_cec_events`. -/
def dequeue (s : State) : State :=
  match s.messageQueueStart with
  | none => { s with control := .outside }
  | some node =>
    match s.heap node with
    | none => { s with fault := true }
    | some cell =>
      { s with
        messageQueueStart := cell.next
        messageQueueEnd := if cell.next = none then none else s.messageQueueEnd
        control := .processing node }

/-- `switch (node->code)` on the node dequeued. -/
def processNode (node : Nat) (s : State) : State :=
  match s.heap node with
  | none => { s with fault := true }
  | some cell =>
    let r := process cell.val s.data2
    { s with data2 := r.1, applied := s.applied ++ r.2.toList, control := .freeing node }

/-- `free(node)`. -/
def freeNode (node : Nat) (s : State) : State :=
  match s.heap node with
  | none => { s with fault := true }
  | some _ => { s with heap := Function.update s.heap node none, control := .polling }

inductive Act
  /-- `CEC_RECEIVE` answers `msg`, and `malloc` the address `node` -/
  | receive (msg : CecMsg) (node : Nat)
  | add
  | poll
  | dequeue
  | process
  | free

/-- One step of `rx_loop` or of the control thread. -/
def step (s : State) : Act → Option State
  | .receive msg node =>
    if s.rx ≠ .idle then none
    else if cecMsgInitiator msg ≠ cecLogAddrTv then some s
    else if (s.heap node).isSome then none
    else some (newNode msg node s)
  | .add =>
    match s.rx with
    | .adding node => some (addMessageToQueue node s)
    | .idle => none
  | .poll => if s.control = .outside then some { s with control := .polling } else none
  | .dequeue => if s.control = .polling then some (dequeue s) else none
  | .process =>
    match s.control with
    | .processing node => some (processNode node s)
    | _ => none
  | .free =>
    match s.control with
    | .freeing node => some (freeNode node s)
    | _ => none

/-- A session from the end of an `init_cec_controls` that succeeded, with the
high bytes `d` of the sessions before. What they left allocated stays so. -/
def machine (d : Data2 → UInt8) : Machine State Act where
  init s := s.messageQueueStart = none ∧ s.messageQueueEnd = none ∧ s.data2 = d ∧ s.rx = .idle ∧
    s.control = .outside ∧ s.fault = false ∧ s.received = [] ∧ s.applied = []
  step := step

end Camview.Cec
