/-
The threads around the triple buffer of `display.c`, as one transition
system: the decoder (`get_buffer_number`, `hw_decode_jpeg`, `put_buffer`), the
display thread (`display_thread_loop`), the control thread (`set_drm_fcc`,
`set_drm_bws`, `set_drm_lti`) and main's `terminate_display`, from the state
`init_display` leaves.

A section under `current_values_lock` is one step; a section that waits is two,
since `pthread_cond_wait` releases the lock. Everything outside the lock goes
one access to a shared variable at a time. A wait may return without a signal,
as POSIX allows: `wakeDecoder` and `wakeDisplay` are enabled on a waiter whether
or not it has been signalled. A signal that finds no waiter is lost.

Framebuffers are named by their buffer number (`buf_ids` of the loop): the model
is of a session whose three framebuffers were added. The contents of a buffer
are an arbitrary type `F`, the bytes of a parameter block an arbitrary type `β`.
-/
import Camview.Slots
import Camview.Transition

namespace Camview.Display

/-- `crtcs[0] && new_planes[0]` and `crtcs[1] && new_planes[1]`. -/
structure Planes where
  hdmi : Bool
  composite : Bool

/-- The parameter blocks `fcc`, `bws` and `lti`. -/
inductive Block
  | fcc
  | bws
  | lti
deriving DecidableEq, Repr

/-- Where the decoder thread is; `holding` is between `get_buffer_number` and
`put_buffer`, with the `write_buffer` it got. -/
inductive DecoderPc
  | idle
  | waiting (signalled : Bool)
  | holding (writeBuffer : UInt8)
  | ended
deriving DecidableEq, Repr

/-- Where the display thread is in `display_thread_loop`. -/
inductive DisplayPc
  /-- `while (run_video_update)` -/
  | test
  /-- before the section that takes a buffer -/
  | lock
  | waiting (signalled : Bool)
  | drawHdmi
  | drawComposite
  /-- `display_initialized = 1` -/
  | drawn
  /-- `if (pending_controls_apply)` -/
  | testPending
  | apply (block : Block)
  | clearPending
  /-- `if (prev_display_buffer)` and the section under it -/
  | giveBack
  | finished
deriving DecidableEq, Repr

/-- Where the control thread is in a `set_drm_*` call. -/
inductive ControlPc
  | idle
  /-- after `memcpy`, before `if (display_initialized)` -/
  | stored (block : Block)
  | sending (block : Block)
  | deferring
deriving DecidableEq, Repr

/-- Where main is in `terminate_display`. -/
inductive MainPc
  | running
  | clearInitialized
  | clearRun
  | signal
  | joining
  | tearDown
  | returned
deriving DecidableEq, Repr

/-- The variables of `display.c` the threads share, their locals and program
counters, the driver's view (`contents`, the buffer last set on each plane, the
block last sent), and the history a run leaves: the contents passed to
`put_buffer`, and those put on each plane. -/
structure State (F β : Type) where
  currentDisplayBuffer : BufferT
  currentAvailableBuffer : BufferT
  runVideoUpdate : Bool
  displayInitialized : Bool
  pendingControlsApply : Bool
  params : Block → β
  srcWidth : UInt32
  srcHeight : UInt32
  displayBuffer : UInt8
  prevDisplayBuffer : UInt8
  decoder : DecoderPc
  display : DisplayPc
  control : ControlPc
  main : MainPc
  exited : Bool
  contents : UInt8 → F
  hdmiPlane : Option UInt8
  compositePlane : Option UInt8
  sent : Block → Option β
  putFrames : List F
  hdmiShown : List F
  compositeShown : List F

/-- What a session starts from: the globals `init_display` does not assign, its
arguments, and the blank picture it fills the buffers with. -/
structure Session (F β : Type) where
  planes : Planes
  width : UInt32
  height : UInt32
  blank : F
  displayInitialized : Bool
  pendingControlsApply : Bool
  params : Block → β
  sent : Block → Option β

variable {F β : Type}

/-- The state at the end of `init_display`, the display thread created. -/
def initDisplay (S : Session F β) : State F β where
  currentDisplayBuffer := ⟨1, 0, 0⟩
  currentAvailableBuffer := ⟨2, 3, 0⟩
  runVideoUpdate := true
  displayInitialized := S.displayInitialized
  pendingControlsApply := S.pendingControlsApply
  params := S.params
  srcWidth := S.width <<< 16
  srcHeight := S.height <<< 16
  displayBuffer := 0
  prevDisplayBuffer := 0
  decoder := .idle
  display := .test
  control := .idle
  main := .running
  exited := false
  contents := fun _ => S.blank
  hdmiPlane := none
  compositePlane := none
  sent := S.sent
  putFrames := []
  hdmiShown := []
  compositeShown := []

/-! ## Condition variables -/

/-- `pthread_cond_signal(&available_buffer_cond)`: only the decoder waits on it. -/
def DecoderPc.signal : DecoderPc → DecoderPc
  | .waiting _ => .waiting true
  | pc => pc

/-- `pthread_cond_signal(&display_buffer_cond)`: only the display thread waits on it. -/
def DisplayPc.signal : DisplayPc → DisplayPc
  | .waiting _ => .waiting true
  | pc => pc

/-! ## The decoder -/

/-- The physical buffer `get_buffer` selects: 2, 3, and 1 for every other number. -/
def outputBuffer (writeBuffer : UInt8) : UInt8 :=
  if writeBuffer = 2 then 2 else if writeBuffer = 3 then 3 else 1

/-- `write_buffer = current_available_buffer[0]; forward(current_available_buffer)`. -/
def dequeueAvailable (s : State F β) : State F β :=
  { s with
    decoder := .holding s.currentAvailableBuffer.s0
    currentAvailableBuffer := forward s.currentAvailableBuffer }

/-- `get_buffer_number`, up to its unlock or its wait. The last branch is
"Failed to dequeue available buffer". -/
def getBufferNumber (s : State F β) : State F β :=
  if s.currentAvailableBuffer.s0 ≠ 0 then dequeueAvailable s
  else if s.currentDisplayBuffer.s0 ≠ 0 then { s with decoder := .waiting false }
  else { s with decoder := .holding 0 }

/-- `hw_decode_jpeg` into the buffer `get_buffer` selected. -/
def decodeInto (b : UInt8) (frame : F) (s : State F β) : State F β :=
  { s with contents := fun b' => if b' = outputBuffer b then frame else s.contents b' }

/-- `put_buffer`. -/
def putBuffer (b : UInt8) (s : State F β) : State F β :=
  { s with
    currentDisplayBuffer := put s.currentDisplayBuffer b
    display := s.display.signal
    decoder := .idle
    putFrames := s.putFrames ++ [s.contents (outputBuffer b)] }

/-! ## The display thread -/

/-- `prev_display_buffer = display_buffer; display_buffer = current_display_buffer[0];
forward(current_display_buffer)`, with `should_draw` set. -/
def takeHead (s : State F β) : State F β :=
  { s with
    prevDisplayBuffer := s.displayBuffer
    displayBuffer := s.currentDisplayBuffer.s0
    currentDisplayBuffer := forward s.currentDisplayBuffer
    display := .drawHdmi }

/-- The second `if (current_display_buffer[0])` of the first section; without a
buffer `should_draw` is 0 and the thread goes on to `if (prev_display_buffer)`. -/
def takeBuffer (s : State F β) : State F β :=
  if s.currentDisplayBuffer.s0 ≠ 0 then takeHead s else { s with display := .giveBack }

/-- The section under `if (prev_display_buffer)`, and `prev_display_buffer = 0`. -/
def returnPrev (s : State F β) : State F β :=
  { s with
    currentAvailableBuffer := put s.currentAvailableBuffer s.prevDisplayBuffer
    decoder := s.decoder.signal
    prevDisplayBuffer := 0
    display := .test }

/-- The framebuffer of `display_buffer` is on the HDMI plane. -/
def showHdmi (s : State F β) : State F β :=
  { s with
    hdmiPlane := some s.displayBuffer
    hdmiShown := s.hdmiShown ++ [s.contents s.displayBuffer]
    display := .drawComposite }

/-- The framebuffer of `display_buffer` is on the composite plane. -/
def showComposite (s : State F β) : State F β :=
  { s with
    compositePlane := some s.displayBuffer
    compositeShown := s.compositeShown ++ [s.contents s.displayBuffer]
    display := .drawn }

/-- `drmModeSetPlane` on the HDMI plane, if there is one; a failure ends the process. -/
def setHdmiPlane (P : Planes) (failed : Bool) (s : State F β) : State F β :=
  if P.hdmi then if failed then { s with exited := true } else showHdmi s
  else { s with display := .drawComposite }

/-- `drmModeSetPlane` on the composite plane, if there is one; a failure ends the process. -/
def setCompositePlane (P : Planes) (failed : Bool) (s : State F β) : State F β :=
  if P.composite then if failed then { s with exited := true } else showComposite s
  else { s with display := .drawn }

/-- The ioctl that sends a parameter block to the driver. -/
def sendBlock (block : Block) (s : State F β) : State F β :=
  { s with sent := fun b => if b = block then some (s.params block) else s.sent b }

/-- What follows the ioctl of a block under `if (pending_controls_apply)`. -/
def Block.next : Block → DisplayPc
  | .fcc => .apply .bws
  | .bws => .apply .lti
  | .lti => .clearPending

/-- One step of `display_thread_loop`, away from its wait. -/
def displayThreadLoop (P : Planes) (failed : Bool) (s : State F β) : Option (State F β) :=
  match s.display with
  | .test => some (if s.runVideoUpdate then { s with display := .lock } else { s with display := .finished })
  | .lock =>
    if s.currentDisplayBuffer.s0 = 0 then some { s with display := .waiting false }
    else some (takeBuffer s)
  | .waiting _ => none
  | .drawHdmi => some (setHdmiPlane P failed s)
  | .drawComposite => some (setCompositePlane P failed s)
  | .drawn => some { s with displayInitialized := true, display := .testPending }
  | .testPending =>
    some (if s.pendingControlsApply then { s with display := .apply .fcc } else { s with display := .giveBack })
  | .apply block => some { sendBlock block s with display := block.next }
  | .clearPending => some { s with pendingControlsApply := false, display := .giveBack }
  | .giveBack => some (if s.prevDisplayBuffer = 0 then { s with display := .test } else returnPrev s)
  | .finished => none

/-! ## The control thread -/

/-- `set_drm_fcc`, `set_drm_bws` or `set_drm_lti` up to `memcpy`: a block equal
to the cached one is not stored. -/
def setDrm [DecidableEq β] (block : Block) (value : β) (s : State F β) : State F β :=
  if value = s.params block then s
  else
    { s with
      params := fun b => if b = block then value else s.params b
      control := .stored block }

/-- One more step of a `set_drm_*` call. -/
def setDrmNext (s : State F β) : Option (State F β) :=
  match s.control with
  | .idle => none
  | .stored block => some { s with control := if s.displayInitialized then .sending block else .deferring }
  | .sending block => some { sendBlock block s with control := .idle }
  | .deferring => some { s with pendingControlsApply := true, control := .idle }

/-! ## Main -/

/-- One step of `terminate_display`. It runs after the decoder has ended, and
returns at once when both source sizes are 0. -/
def terminateDisplay (s : State F β) : Option (State F β) :=
  match s.main with
  | .running =>
    if s.decoder = .ended then
      some { s with main := if s.srcWidth = 0 ∧ s.srcHeight = 0 then .returned else .clearInitialized }
    else none
  | .clearInitialized => some { s with displayInitialized := false, main := .clearRun }
  | .clearRun => some { s with runVideoUpdate := false, main := .signal }
  | .signal => some { s with display := s.display.signal, main := .joining }
  | .joining => if s.display = .finished then some { s with main := .tearDown } else none
  | .tearDown =>
    some { s with srcWidth := 0, srcHeight := 0, hdmiPlane := none, compositePlane := none, main := .returned }
  | .returned => none

/-! ## The system -/

/-- What the scheduler may pick next. -/
inductive Act (F β : Type)
  | get
  | wakeDecoder
  | decode (frame : F)
  | put
  | endDecoder
  | display (failed : Bool)
  | wakeDisplay
  | setDrm (block : Block) (value : β)
  | setDrmNext
  | main

/-- One atomic step of one thread. After `exit` nothing runs. -/
def step [DecidableEq β] (P : Planes) (s : State F β) (a : Act F β) : Option (State F β) :=
  if s.exited then none else
  match a with
  | .get => if s.decoder = .idle then some (getBufferNumber s) else none
  | .wakeDecoder =>
    match s.decoder with
    | .waiting _ => some (dequeueAvailable s)
    | _ => none
  | .decode frame =>
    match s.decoder with
    | .holding b => some (decodeInto b frame s)
    | _ => none
  | .put =>
    match s.decoder with
    | .holding b => some (putBuffer b s)
    | _ => none
  | .endDecoder => if s.decoder = .idle then some { s with decoder := .ended } else none
  | .display failed => displayThreadLoop P failed s
  | .wakeDisplay =>
    match s.display with
    | .waiting _ => some (takeBuffer s)
    | _ => none
  | .setDrm block value => if s.control = .idle then some (setDrm block value s) else none
  | .setDrmNext => setDrmNext s
  | .main => terminateDisplay s

/-- The threads of a session. -/
def machine [DecidableEq β] (S : Session F β) : Machine (State F β) (Act F β) where
  init s := s = initDisplay S
  step := step S.planes

/-- A wait returns only after a signal. -/
def Signalled (s : State F β) : Act F β → Prop
  | .wakeDecoder => s.decoder = .waiting true
  | .wakeDisplay => s.display = .waiting true
  | _ => True

/-! ## What a step can do -/

/-- The steps, one constructor for each branch the code can take. -/
inductive Trans (P : Planes) (s : State F β) : Act F β → State F β → Prop
  | getAvailable : s.decoder = .idle → s.currentAvailableBuffer.s0 ≠ 0 → Trans P s .get (dequeueAvailable s)
  | getWait : s.decoder = .idle → s.currentAvailableBuffer.s0 = 0 → s.currentDisplayBuffer.s0 ≠ 0 →
      Trans P s .get { s with decoder := .waiting false }
  | getFail : s.decoder = .idle → s.currentAvailableBuffer.s0 = 0 → s.currentDisplayBuffer.s0 = 0 →
      Trans P s .get { s with decoder := .holding 0 }
  | wakeDecoder : s.decoder = .waiting signalled → Trans P s .wakeDecoder (dequeueAvailable s)
  | decode : s.decoder = .holding b → Trans P s (.decode frame) (decodeInto b frame s)
  | put : s.decoder = .holding b → Trans P s .put (putBuffer b s)
  | endDecoder : s.decoder = .idle → Trans P s .endDecoder { s with decoder := .ended }
  | testOn : s.display = .test → s.runVideoUpdate = true → Trans P s (.display f) { s with display := .lock }
  | testOff : s.display = .test → s.runVideoUpdate = false → Trans P s (.display f) { s with display := .finished }
  | wait : s.display = .lock → s.currentDisplayBuffer.s0 = 0 →
      Trans P s (.display f) { s with display := .waiting false }
  | take : s.display = .lock → s.currentDisplayBuffer.s0 ≠ 0 → Trans P s (.display f) (takeHead s)
  | wakeTake : s.display = .waiting signalled → s.currentDisplayBuffer.s0 ≠ 0 →
      Trans P s .wakeDisplay (takeHead s)
  | wakeEmpty : s.display = .waiting signalled → s.currentDisplayBuffer.s0 = 0 →
      Trans P s .wakeDisplay { s with display := .giveBack }
  | showHdmi : s.display = .drawHdmi → P.hdmi = true → Trans P s (.display false) (showHdmi s)
  | noHdmi : s.display = .drawHdmi → P.hdmi = false → Trans P s (.display f) { s with display := .drawComposite }
  | showComposite : s.display = .drawComposite → P.composite = true →
      Trans P s (.display false) (showComposite s)
  | noComposite : s.display = .drawComposite → P.composite = false →
      Trans P s (.display f) { s with display := .drawn }
  | exit : s.display = .drawHdmi ∨ s.display = .drawComposite →
      Trans P s (.display true) { s with exited := true }
  | drawn : s.display = .drawn →
      Trans P s (.display f) { s with displayInitialized := true, display := .testPending }
  | pending : s.display = .testPending → s.pendingControlsApply = true →
      Trans P s (.display f) { s with display := .apply .fcc }
  | noPending : s.display = .testPending → s.pendingControlsApply = false →
      Trans P s (.display f) { s with display := .giveBack }
  | apply : s.display = .apply block →
      Trans P s (.display f) { sendBlock block s with display := block.next }
  | clearPending : s.display = .clearPending →
      Trans P s (.display f) { s with pendingControlsApply := false, display := .giveBack }
  | giveBack : s.display = .giveBack → s.prevDisplayBuffer ≠ 0 → Trans P s (.display f) (returnPrev s)
  | noGiveBack : s.display = .giveBack → s.prevDisplayBuffer = 0 →
      Trans P s (.display f) { s with display := .test }
  | setDrmSame : s.control = .idle → value = s.params block → Trans P s (.setDrm block value) s
  | setDrm : s.control = .idle → value ≠ s.params block →
      Trans P s (.setDrm block value)
        { s with params := fun b => if b = block then value else s.params b, control := .stored block }
  | setDrmTest : s.control = .stored block →
      Trans P s .setDrmNext
        { s with control := if s.displayInitialized then .sending block else .deferring }
  | setDrmSend : s.control = .sending block →
      Trans P s .setDrmNext { sendBlock block s with control := .idle }
  | setDrmDefer : s.control = .deferring →
      Trans P s .setDrmNext { s with pendingControlsApply := true, control := .idle }
  | terminate : s.main = .running → s.decoder = .ended → ¬ (s.srcWidth = 0 ∧ s.srcHeight = 0) →
      Trans P s .main { s with main := .clearInitialized }
  | terminateNothing : s.main = .running → s.decoder = .ended → s.srcWidth = 0 ∧ s.srcHeight = 0 →
      Trans P s .main { s with main := .returned }
  | clearInitialized : s.main = .clearInitialized →
      Trans P s .main { s with displayInitialized := false, main := .clearRun }
  | clearRun : s.main = .clearRun → Trans P s .main { s with runVideoUpdate := false, main := .signal }
  | signal : s.main = .signal → Trans P s .main { s with display := s.display.signal, main := .joining }
  | join : s.main = .joining → s.display = .finished → Trans P s .main { s with main := .tearDown }
  | tearDown : s.main = .tearDown →
      Trans P s .main
        { s with srcWidth := 0, srcHeight := 0, hdmiPlane := none, compositePlane := none, main := .returned }

theorem trans_get {P : Planes} {s : State F β} (h : s.decoder = .idle) : Trans P s .get (getBufferNumber s) := by
  unfold getBufferNumber
  split
  · next ha => exact .getAvailable h ha
  split
  · next ha hd => exact .getWait h (by simpa using ha) hd
  · next ha hd => exact .getFail h (by simpa using ha) (by simpa using hd)

theorem trans_display {P : Planes} {s s' : State F β} {f : Bool} (h : displayThreadLoop P f s = some s') :
    Trans P s (.display f) s' := by
  unfold displayThreadLoop at h
  split at h
  · next e =>
    cases h
    split
    · next hr => exact .testOn e hr
    · next hr => exact .testOff e (by simpa using hr)
  · next e =>
    split at h
    · next hd => cases h; exact .wait e hd
    · next hd =>
      simp only [takeBuffer, ne_eq, hd, not_false_iff, if_true, Option.some.injEq] at h
      exact h ▸ .take e hd
  · cases h
  · next e =>
    cases h
    unfold setHdmiPlane
    cases hp : P.hdmi
    · exact .noHdmi e hp
    · cases f
      · exact .showHdmi e hp
      · exact .exit (.inl e)
  · next e =>
    cases h
    unfold setCompositePlane
    cases hp : P.composite
    · exact .noComposite e hp
    · cases f
      · exact .showComposite e hp
      · exact .exit (.inr e)
  · next e => cases h; exact .drawn e
  · next e =>
    cases h
    split
    · next hp => exact .pending e hp
    · next hp => exact .noPending e (by simpa using hp)
  · next e => cases h; exact .apply e
  · next e => cases h; exact .clearPending e
  · next e =>
    cases h
    split
    · next hp => exact .noGiveBack e hp
    · next hp => exact .giveBack e hp
  · cases h

theorem trans_main {P : Planes} {s s' : State F β} (h : terminateDisplay s = some s') : Trans P s .main s' := by
  unfold terminateDisplay at h
  split at h
  · next e =>
    split at h
    · next hd =>
      simp only [Option.some.injEq] at h
      subst h
      split
      · next hz => exact .terminateNothing e hd hz
      · next hz => exact .terminate e hd hz
    · cases h
  · next e => cases h; exact .clearInitialized e
  · next e => cases h; exact .clearRun e
  · next e => cases h; exact .signal e
  · next e =>
    split at h
    · next hd => cases h; exact .join e hd
    · cases h
  · next e => cases h; exact .tearDown e
  · cases h

/-- Every step is one of the branches. -/
theorem step_cases [DecidableEq β] {P : Planes} {s s' : State F β} {a : Act F β} (h : step P s a = some s') :
    s.exited = false ∧ Trans P s a s' := by
  unfold step at h
  split at h
  · cases h
  next hx =>
  refine ⟨by simpa using hx, ?_⟩
  cases a with
  | get =>
    simp only [Option.ite_none_right_eq_some, Option.some.injEq] at h
    exact h.2 ▸ trans_get h.1
  | wakeDecoder =>
    dsimp only at h
    split at h
    · next e => cases h; exact .wakeDecoder e
    · cases h
  | decode frame =>
    dsimp only at h
    split at h
    · next e => cases h; exact .decode e
    · cases h
  | put =>
    dsimp only at h
    split at h
    · next e => cases h; exact .put e
    · cases h
  | endDecoder =>
    simp only [Option.ite_none_right_eq_some, Option.some.injEq] at h
    exact h.2 ▸ .endDecoder h.1
  | display failed => exact trans_display h
  | wakeDisplay =>
    dsimp only at h
    split at h
    · next e =>
      cases h
      unfold takeBuffer
      split
      · next hd => exact .wakeTake e hd
      · next hd => exact .wakeEmpty e (by simpa using hd)
    · cases h
  | setDrm block value =>
    simp only [Option.ite_none_right_eq_some, Option.some.injEq] at h
    obtain ⟨hi, rfl⟩ := h
    unfold setDrm
    split
    · next hv => exact .setDrmSame hi hv
    · next hv => exact .setDrm hi hv
  | setDrmNext =>
    dsimp only [setDrmNext] at h
    split at h
    · cases h
    · next e => cases h; exact .setDrmTest e
    · next e => cases h; exact .setDrmSend e
    · next e => cases h; exact .setDrmDefer e
  | main => exact trans_main h

end Camview.Display
