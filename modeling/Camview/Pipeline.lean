/-
From the camera to the screen: the frames the capture thread hands to
`hw_decode_jpeg_main` one after the other, what the engine makes of them in the three
buffers, and what the display thread sets on the planes.

The decoder is that of `Camview.Hw`, the threads are those of `Camview.Display`; here they
work on one session. What the engine makes of a job and of the input buffer is the
hardware's, and a parameter: `render`. It is done when `ve_wait` returns.

`camera_to_screen`: each plane shows the blank picture and then the frames the camera
delivered, from the first one of a known format on and without those that do not parse,
each once and in their order. Only a buffer the engine has no addresses for is shown with
what it held before. It is about the runs that are `Regular`: the frames fit the input
buffer, and those the engine is started on have a format `set_format` knows.
-/
import Camview.DisplayFifo
import Camview.Engine

namespace Camview.Pipeline

open Hw Reader
open Display (Session)

variable {F β : Type}

/-! ## State -/

/-- A frame that was given a buffer, the addresses of the buffer, and the job the engine
was started with. -/
structure Played where
  frame : Frame
  jpeg : JpegT
  buffer : UInt8
  out : Output
  job : Option Job

/-- Where the capture thread is in `hw_decode_jpeg_main`. -/
inductive Pc
  | idle
  /-- in `get_buffer_number`, or before `hw_decode_jpeg` -/
  | getting (f : Frame) (jpeg : JpegT)
  /-- before `put_buffer` -/
  | putting (d : Played)
  | ended

/-- The variables of the decoder, the engine, `input_buffer` with the size `hw_init`
mapped it with, and the threads; the frames the capture thread dequeued and those it has
put. -/
structure State (F β : Type) where
  hw : Hw.State
  engine : Engine
  input : Nat → UInt8
  inputSize : Nat
  display : Display.State F β
  capture : Pc
  dequeued : List Frame
  played : List Played

/-- The frame in the capture thread's hand. -/
def Pc.hand : Pc → List Frame
  | .getting f _ => [f]
  | .putting d => [d.frame]
  | .idle | .ended => []

/-! ## Functions -/

/-- `memcpy(input_buffer, jpeg.data, jpeg.data_len)`, as far as it is to the buffer. The
code does not compare the sizes, and copies past it what is longer. -/
def copyInput (f : Frame) (jpeg : JpegT) (size : Nat) (input : Nat → UInt8) : Nat → UInt8 :=
  fun i => if i < jpeg.dataLen.toNat ∧ i < size then f.data (jpeg.data.getD 0 + i) else input i

/-- The session `init_display` starts for a picture of this size. -/
def sized (S : Session F β) (jpeg : JpegT) : Session F β :=
  { S with width := jpeg.width.toUInt32, height := jpeg.height.toUInt32 }

/-- The input is there and the frame waits for a buffer. -/
def toBuffer (f : Frame) (jpeg : JpegT) (s : State F β) : State F β :=
  { s with input := copyInput f jpeg s.inputSize s.input, capture := .getting f jpeg }

/-- `hw_decode_jpeg_main`, up to `get_buffer`. -/
def hwDecodeJpegMain (S : Session F β) (f : Frame) (s : State F β) : State F β :=
  let s := { s with dequeued := s.dequeued ++ [f] }
  match f.parse with
  | none => s
  | some jpeg =>
    if s.hw.displayInitialized then toBuffer f jpeg s
    else if getFormat jpeg = 0 then s
    else if f.displayFails then { s with hw := { s.hw with exited := true }, capture := .getting f jpeg }
    else toBuffer f jpeg { s with hw := hwInitDisplay f jpeg s.hw, display := Display.initDisplay (sized S jpeg) }

/-- What the engine leaves in the buffer, if it was started. -/
def engineDone (render : Job → (Nat → UInt8) → F) (b : UInt8) (job : Option Job) (s : State F β) : Display.State F β :=
  match job with
  | some job => Display.decodeInto b (render job s.input) s.display
  | none => s.display

/-- `hw_decode_jpeg` into the buffer `b`. -/
def decode (render : Job → (Nat → UInt8) → F) (b : UInt8) (f : Frame) (jpeg : JpegT) (s : State F β) : State F β :=
  let hw := Hw.decodeInto { f with bufferNumber := b } jpeg s.hw
  match (hwDecodeJpeg (s.hw.select b) f.phyInput jpeg).run f.data with
  | none => { s with hw }
  | some accesses =>
    let job := (s.engine.jobs accesses).head?
    { s with
      hw
      engine := s.engine.run accesses
      display := engineDone render b job s
      capture := .putting ⟨f, jpeg, b, s.hw.select b, job⟩ }

/-! ## The system -/

inductive Act (F β : Type)
  /-- the capture thread dequeues a frame -/
  | frame (f : Frame)
  | get
  | wakeDecoder
  | decode
  | put
  /-- the capture thread leaves its loop -/
  | endCapture
  /-- a step of another thread -/
  | thread (a : Display.Act F β)

/-- The steps that are not the decoder's. -/
def others : Display.Act F β → Bool
  | .display _ | .wakeDisplay | .setDrm _ _ | .setDrmNext | .main => true
  | _ => false

variable [DecidableEq β]

/-- A step of the threads of the display. -/
def displayStep (S : Session F β) (a : Display.Act F β) (s : State F β) : Option (State F β) :=
  (Display.step S.planes s.display a).map fun display => { s with display }

/-- One step of one thread. After `exit` nothing runs, and without `init_display` there are
no threads but the capture thread. -/
def step (render : Job → (Nat → UInt8) → F) (S : Session F β) (s : State F β) (a : Act F β) : Option (State F β) :=
  if s.hw.exited ∨ s.display.exited then none else
  match a, s.capture with
  | .frame f, .idle => some (hwDecodeJpegMain S f s)
  | .get, .getting _ _ => displayStep S .get s
  | .wakeDecoder, .getting _ _ => displayStep S .wakeDecoder s
  | .decode, .getting f jpeg =>
    match s.display.decoder with
    | .holding b => some (decode render b f jpeg s)
    | _ => none
  | .put, .putting d =>
    (displayStep S .put s).map fun s => { s with capture := .idle, played := s.played ++ [d] }
  | .endCapture, .idle =>
    if s.hw.displayInitialized then (displayStep S .endDecoder s).map fun s => { s with capture := .ended }
    else some { s with capture := .ended }
  | .thread a, _ => if s.hw.displayInitialized ∧ others a = true then displayStep S a s else none
  | _, _ => none

/-- A session from `hw_init` on. -/
def machine (render : Job → (Nat → UInt8) → F) (S : Session F β) : Machine (State F β) (Act F β) where
  init s := Hw.machine.init s.hw ∧ s.display = Display.initDisplay S ∧ s.capture = .idle ∧ s.dequeued = [] ∧
    s.played = []
  step := step render S

/-- A frame that is copied is not longer than the input buffer. -/
def Fits (s : State F β) (f : Frame) : Prop :=
  ∀ jpeg ∈ f.parse, s.hw.displayInitialized = true ∨ getFormat jpeg ≠ 0 ∧ f.displayFails = false →
    jpeg.dataLen.toNat ≤ s.inputSize

/-- If the engine is started on the frame at hand, into the buffer at hand, `set_format`
knows its format. -/
def Known (hw : Hw.State) : Pc → Display.DecoderPc → Prop
  | .getting f _, .holding b => FormatKnown hw { f with bufferNumber := b }
  | _, _ => True

/-- A wait returns only after a signal, and the frames are such that the input buffer
holds them and the engine knows their format. -/
def Regular (s : State F β) : Act F β → Prop
  | .frame f => Fits s f
  | .decode => Known s.hw s.capture s.display.decoder
  | .wakeDecoder => Display.Signalled s.display .wakeDecoder
  | .thread a => Display.Signalled s.display a
  | _ => True

/-! ## What a step can do -/

/-- The frame is left before a buffer is got for it. -/
def Dropped (s : State F β) (f : Frame) : Prop :=
  f.parse = none ∨ s.hw.displayInitialized = false ∧ ∃ jpeg, f.parse = some jpeg ∧ getFormat jpeg = 0

/-- The steps, one constructor for each branch the code can take. -/
inductive Trans (render : Job → (Nat → UInt8) → F) (S : Session F β) (s : State F β) :
    Act F β → State F β → Prop
  | dropped : s.capture = .idle → Dropped s f → Trans render S s (.frame f) { s with dequeued := s.dequeued ++ [f] }
  | next : s.capture = .idle → f.parse = some jpeg → s.hw.displayInitialized = true →
      Trans render S s (.frame f) (toBuffer f jpeg { s with dequeued := s.dequeued ++ [f] })
  | fails : s.capture = .idle → f.parse = some jpeg → s.hw.displayInitialized = false → getFormat jpeg ≠ 0 →
      Trans render S s (.frame f)
        { s with
          hw := { s.hw with exited := true }
          dequeued := s.dequeued ++ [f]
          capture := .getting f jpeg }
  | first : s.capture = .idle → f.parse = some jpeg → s.hw.displayInitialized = false → getFormat jpeg ≠ 0 →
      f.displayFails = false →
      Trans render S s (.frame f)
        (toBuffer f jpeg
          { s with
            hw := hwInitDisplay f jpeg s.hw
            display := Display.initDisplay (sized S jpeg)
            dequeued := s.dequeued ++ [f] })
  | get : s.capture = .getting f jpeg → Display.step S.planes s.display .get = some display →
      Trans render S s .get { s with display }
  | wakeDecoder : s.capture = .getting f jpeg → Display.step S.planes s.display .wakeDecoder = some display →
      Trans render S s .wakeDecoder { s with display }
  | crashed : s.capture = .getting f jpeg → s.display.decoder = .holding b →
      (hwDecodeJpeg (s.hw.select b) f.phyInput jpeg).run f.data = none →
      Trans render S s .decode { s with hw := Hw.decodeInto { f with bufferNumber := b } jpeg s.hw }
  | decoded : s.capture = .getting f jpeg → s.display.decoder = .holding b →
      (hwDecodeJpeg (s.hw.select b) f.phyInput jpeg).run f.data = some accesses →
      Trans render S s .decode
        { s with
          hw := Hw.decodeInto { f with bufferNumber := b } jpeg s.hw
          engine := s.engine.run accesses
          display := engineDone render b (s.engine.jobs accesses).head? s
          capture := .putting ⟨f, jpeg, b, s.hw.select b, (s.engine.jobs accesses).head?⟩ }
  | put : s.capture = .putting d → Display.step S.planes s.display .put = some display →
      Trans render S s .put { s with display, capture := .idle, played := s.played ++ [d] }
  | ended : s.capture = .idle → s.hw.displayInitialized = true →
      Display.step S.planes s.display .endDecoder = some display →
      Trans render S s .endCapture { s with display, capture := .ended }
  | endedEarly : s.capture = .idle → s.hw.displayInitialized = false →
      Trans render S s .endCapture { s with capture := .ended }
  | thread : others a = true → s.hw.displayInitialized = true → Display.step S.planes s.display a = some display →
      Trans render S s (.thread a) { s with display }

variable {render : Job → (Nat → UInt8) → F} {S : Session F β} {s s' : State F β} {a : Act F β}

theorem trans_frame {f : Frame} (h : s.capture = .idle) : Trans render S s (.frame f) (hwDecodeJpegMain S f s) := by
  unfold hwDecodeJpegMain
  dsimp only
  split
  · next hp => exact .dropped h (.inl hp)
  next jpeg hp =>
  split
  · next hi => exact .next h hp hi
  next hi =>
  have hi : s.hw.displayInitialized = false := by simpa using hi
  split
  · next hz => exact .dropped h (.inr ⟨hi, jpeg, hp, hz⟩)
  next hz =>
  split
  · exact .fails h hp hi hz
  · next hd => exact .first h hp hi hz (by simpa using hd)

theorem trans_decode {f : Frame} {jpeg : JpegT} {b : UInt8} (h : s.capture = .getting f jpeg)
    (hb : s.display.decoder = .holding b) : Trans render S s .decode (decode render b f jpeg s) := by
  unfold decode
  dsimp only
  split
  · next hr => exact .crashed h hb hr
  · next accesses hr => exact .decoded h hb hr

theorem displayStep_eq_some {b : Display.Act F β} (h : displayStep S b s = some s') :
    ∃ display, Display.step S.planes s.display b = some display ∧ s' = { s with display } := by
  obtain ⟨display, hd, rfl⟩ := Option.map_eq_some_iff.1 h
  exact ⟨display, hd, rfl⟩

theorem step_cases (h : step render S s a = some s') :
    (s.hw.exited = false ∧ s.display.exited = false) ∧ Trans render S s a s' := by
  simp only [step, Option.ite_none_left_eq_some, not_or, Bool.not_eq_true] at h
  obtain ⟨hx, h⟩ := h
  refine ⟨hx, ?_⟩
  split at h
  · next hc =>
    cases h
    exact trans_frame hc
  · next hc =>
    obtain ⟨display, hd, rfl⟩ := displayStep_eq_some h
    exact .get hc hd
  · next hc =>
    obtain ⟨display, hd, rfl⟩ := displayStep_eq_some h
    exact .wakeDecoder hc hd
  · next f jpeg hc =>
    split at h
    · next hb =>
      cases h
      exact trans_decode hc hb
    · cases h
  · next d hc =>
    obtain ⟨t, ht, rfl⟩ := Option.map_eq_some_iff.1 h
    obtain ⟨display, hd, rfl⟩ := displayStep_eq_some ht
    exact .put hc hd
  · next hc =>
    split at h
    · next hi =>
      obtain ⟨t, ht, rfl⟩ := Option.map_eq_some_iff.1 h
      obtain ⟨display, hd, rfl⟩ := displayStep_eq_some ht
      exact .ended hc hi hd
    · next hi =>
      cases h
      exact .endedEarly hc (by simpa using hi)
  · simp only [Option.ite_none_right_eq_some] at h
    obtain ⟨⟨hi, ho⟩, h⟩ := h
    obtain ⟨display, hd, rfl⟩ := displayStep_eq_some h
    exact .thread ho hi hd
  · cases h

/-! ## What is shown of a frame -/

/-- The frames that are given a buffer: those that parse, from the first one of a known
format on. -/
def accepted (fs : List Frame) : List Frame :=
  (fs.filter fun f => f.parse.isSome).dropWhile fun f => f.parse.all (getFormat · = 0)

/-- The job of the frame at hand, with its format, its coefficients, its tables and its
buffer, whatever format the engine had before. -/
def Played.OwnJob (d : Played) (job : Job) : Prop :=
  ∃ q0 q1, d.jpeg.quant 0 = some q0 ∧ d.jpeg.quant 1 = some q1 ∧
    ∀ old, job = jobOf d.frame.data d.out d.frame.phyInput d.jpeg q0 q1 old

/-- The input buffer holds the scan of the frame. -/
def Holds (f : Frame) (jpeg : JpegT) (input : Nat → UInt8) : Prop :=
  ∀ i < jpeg.dataLen.toNat, input i = f.data (jpeg.data.getD 0 + i)

/-- The picture put for a frame: what the engine makes of its job and of its scan, or, for
a buffer without addresses, one of the `old` ones. -/
def Played.Shows (render : Job → (Nat → UInt8) → F) (old : List F) (d : Played) (x : F) : Prop :=
  d.frame.parse = some d.jpeg ∧
    ((∃ job input, d.job = some job ∧ d.OwnJob job ∧ Holds d.frame d.jpeg input ∧ x = render job input) ∨
      d.job = none ∧ ¬ d.out.Usable ∧ x ∈ old)

/-- The pictures put for the frames. -/
inductive Plays (render : Job → (Nat → UInt8) → F) (blank : F) : List Played → List F → Prop
  | nil : Plays render blank [] []
  | snoc : Plays render blank ds xs → d.Shows render (blank :: xs) x → Plays render blank (ds ++ [d]) (xs ++ [x])

section Accepted

variable {fs : List Frame} {f : Frame} {jpeg : JpegT}

theorem accepted_none (hp : f.parse = none) : accepted (fs ++ [f]) = accepted fs := by
  simp [accepted, hp]

theorem accepted_next (hp : f.parse = some jpeg) (h : accepted fs ≠ []) :
    accepted (fs ++ [f]) = accepted fs ++ [f] := by
  unfold accepted at h ⊢
  rw [List.filter_append, List.dropWhile_append, if_neg (by simpa using h)]
  simp [hp]

theorem accepted_first (hp : f.parse = some jpeg) (h : accepted fs = []) :
    accepted (fs ++ [f]) = if getFormat jpeg = 0 then [] else [f] := by
  unfold accepted at h ⊢
  rw [List.filter_append, List.dropWhile_append, if_pos (by simp [h])]
  simp [hp, List.dropWhile_cons]

end Accepted

/-! ## The threads -/

section Threads

variable {P : Display.Planes} {d d' : Display.State F β} {b : UInt8}

omit [DecidableEq β] in
/-- Only the decoder changes a buffer or puts one. -/
theorem trans_frames {a : Display.Act F β} (h : Display.Trans P d a d') (hput : a ≠ .put) (hdec : ∀ x, a ≠ .decode x) :
    d'.contents = d.contents ∧ d'.putFrames = d.putFrames := by
  cases h with
  | put => exact absurd rfl hput
  | decode => exact absurd rfl (hdec _)
  | _ => exact ⟨rfl, rfl⟩

omit [DecidableEq β] in
/-- No other thread takes the buffer out of the decoder's hand. -/
theorem trans_holding {a : Display.Act F β} (h : Display.Trans P d a d') (ho : others a = true)
    (hb : d.decoder = .holding b) : d'.decoder = .holding b := by
  cases h with
  | getAvailable | getWait | getFail | wakeDecoder | decode | put | endDecoder => cases ho
  | giveBack =>
    show d.decoder.signal = _
    rw [hb]
    rfl
  | _ => exact hb

theorem step_put (h : Display.step P d .put = some d') :
    ∃ b, d.decoder = .holding b ∧ d' = Display.putBuffer b d := by
  obtain ⟨-, h⟩ := Display.step_cases h
  cases h with
  | put hb => exact ⟨_, hb, rfl⟩

end Threads

/-! ## What holds of a session -/

/-- The frame at hand is parsed, its scan is in the input buffer, and the engine has made
of it what is in the buffer to be put. -/
def AtHand (render : Job → (Nat → UInt8) → F) (S : Session F β) (s : State F β) : Prop :=
  match s.capture with
  | .getting f jpeg => f.parse = some jpeg ∧ (s.hw.exited = false → Holds f jpeg s.input)
  | .putting d => s.display.decoder = .holding d.buffer ∧
      d.Shows render (S.blank :: s.display.putFrames) (s.display.contents (Display.outputBuffer d.buffer))
  | .idle | .ended => True

/-- The frames, and what the buffers hold. -/
structure Inv (render : Job → (Nat → UInt8) → F) (S : Session F β) (s : State F β) : Prop where
  before : s.hw.displayInitialized = false → s.display = Display.initDisplay S ∧ s.played = []
  initialized : s.hw.exited = false → (s.hw.displayInitialized = true ↔ accepted s.dequeued ≠ [])
  frames : s.played.map Played.frame ++ s.capture.hand = accepted s.dequeued
  plays : Plays render S.blank s.played s.display.putFrames
  /-- a buffer that was not just decoded into is as it was put, or blank -/
  old : ∀ b, (∀ d, s.capture = .putting d → b ≠ Display.outputBuffer d.buffer) →
    s.display.contents b ∈ S.blank :: s.display.putFrames
  hand : AtHand render S s

section Step

omit [DecidableEq β]

variable {f : Frame} {jpeg : JpegT} {b : UInt8} {display : Display.State F β} {pc : Pc}

/-- A frame at hand has got past `init_display`. -/
theorem Inv.initialized_of_hand (h : Inv render S s) (hx : s.hw.exited = false) (hne : s.capture.hand ≠ []) :
    s.hw.displayInitialized = true := by
  rw [h.initialized hx, ← h.frames]
  simp [hne]

theorem Inv.accepted_nil (h : Inv render S s) (hx : s.hw.exited = false) (hi : s.hw.displayInitialized = false) :
    accepted s.dequeued = [] := by
  by_contra hne
  rw [(h.initialized hx).2 hne] at hi
  cases hi

theorem Inv.hand_nil (h : Inv render S s) (hc : s.capture = .idle) :
    s.played.map Played.frame = accepted s.dequeued := by
  rw [← h.frames, hc]
  exact (List.append_nil _).symm

/-- A step of the display that keeps the buffers and what was put. -/
theorem Inv.displays (h : Inv render S s) (hi : s.hw.displayInitialized = true)
    (hframes : display.contents = s.display.contents ∧ display.putFrames = s.display.putFrames)
    (hb : ∀ d, s.capture = .putting d → s.display.decoder = .holding d.buffer → display.decoder = .holding d.buffer) :
    Inv render S { s with display } := by
  obtain ⟨hc, hp⟩ := hframes
  refine ⟨fun hn => absurd (hi.symm.trans hn) Bool.noConfusion, h.initialized, h.frames, ?_, ?_, ?_⟩
  · dsimp only
    rw [hp]
    exact h.plays
  · dsimp only
    rw [hp, hc]
    exact h.old
  · have hhand := h.hand
    unfold AtHand at hhand ⊢
    dsimp only
    split
    · next hcap =>
      rw [hcap] at hhand
      exact hhand
    · next d hcap =>
      rw [hcap] at hhand
      rw [hp, hc]
      exact ⟨hb d hcap hhand.1, hhand.2⟩
    · trivial
    · trivial

/-- The capture thread has nothing in hand. -/
theorem Inv.rests (h : Inv render S s) (hc : s.capture = .idle) : Inv render S { s with capture := .ended } := by
  refine ⟨h.before, h.initialized, ?_, h.plays, fun b _ => h.old b fun d hd => ?_, trivial⟩
  · rw [← h.frames, hc]
    rfl
  · rw [hc] at hd
    cases hd

theorem Inv.dropped (h : Inv render S s) (hx : s.hw.exited = false) (hf : Dropped s f) :
    Inv render S { s with dequeued := s.dequeued ++ [f] } := by
  have hsame : accepted (s.dequeued ++ [f]) = accepted s.dequeued := by
    rcases hf with hp | ⟨hi, jpeg, hp, hz⟩
    · exact accepted_none hp
    · have hnil := h.accepted_nil hx hi
      rw [accepted_first hp hnil, if_pos hz, hnil]
  refine ⟨h.before, ?_, ?_, h.plays, h.old, ?_⟩
  · dsimp only
    rw [hsame]
    exact h.initialized
  · dsimp only
    rw [hsame]
    exact h.frames
  · have hhand := h.hand
    unfold AtHand at hhand ⊢
    exact hhand

theorem holds_copyInput {size : Nat} (hsize : jpeg.dataLen.toNat ≤ size) (input : Nat → UInt8) :
    Holds f jpeg (copyInput f jpeg size input) := by
  intro i hi
  exact if_pos ⟨hi, hi.trans_le hsize⟩

theorem Inv.next (h : Inv render S s) (hx : s.hw.exited = false) (hc : s.capture = .idle) (hp : f.parse = some jpeg)
    (hi : s.hw.displayInitialized = true) (hfit : Fits s f) :
    Inv render S (toBuffer f jpeg { s with dequeued := s.dequeued ++ [f] }) := by
  have hnext := accepted_next hp ((h.initialized hx).1 hi)
  refine ⟨h.before, fun _ => iff_of_true hi ?_, ?_, h.plays, fun b _ => h.old b fun d hd => ?_, ?_⟩
  · show accepted (s.dequeued ++ [f]) ≠ []
    rw [hnext]
    simp
  · show s.played.map Played.frame ++ [f] = accepted (s.dequeued ++ [f])
    rw [hnext, h.hand_nil hc]
  · rw [hc] at hd
    cases hd
  · exact ⟨hp, fun _ => holds_copyInput (hfit jpeg hp (.inl hi)) _⟩

/-- The frame the display is initialised with is the first that is given a buffer. -/
theorem Inv.first (h : Inv render S s) (hx : s.hw.exited = false) (hp : f.parse = some jpeg)
    (hi : s.hw.displayInitialized = false) (hz : getFormat jpeg ≠ 0) :
    s.played = [] ∧ accepted (s.dequeued ++ [f]) = [f] := by
  refine ⟨(h.before hi).2, ?_⟩
  rw [accepted_first hp (h.accepted_nil hx hi), if_neg hz]

theorem Inv.starts (h : Inv render S s) (hx : s.hw.exited = false) (hp : f.parse = some jpeg)
    (hi : s.hw.displayInitialized = false) (hz : getFormat jpeg ≠ 0) (hd : f.displayFails = false) (hfit : Fits s f) :
    Inv render S
      (toBuffer f jpeg
        { s with
          hw := hwInitDisplay f jpeg s.hw
          display := Display.initDisplay (sized S jpeg)
          dequeued := s.dequeued ++ [f] }) := by
  obtain ⟨hnil, hacc⟩ := h.first hx hp hi hz
  refine ⟨fun hn => absurd hn (by simp [toBuffer, hwInitDisplay]), fun _ => iff_of_true rfl ?_, ?_, ?_,
    fun b _ => List.mem_cons_self, hp, fun _ => holds_copyInput (hfit jpeg hp (.inr ⟨hz, hd⟩)) _⟩
  · show accepted (s.dequeued ++ [f]) ≠ []
    rw [hacc]
    simp
  · show s.played.map Played.frame ++ [f] = accepted (s.dequeued ++ [f])
    rw [hacc, hnil]
    rfl
  · show Plays render S.blank s.played []
    rw [hnil]
    exact .nil

/-- An engine that has its output addresses is started. -/
theorem not_usable_of_jobs {out : Output} {phyInput : UInt32} {mem : Nat → UInt8} {accesses : List Access} {e : Engine}
    (h : (hwDecodeJpeg out phyInput jpeg).run mem = some accesses) (hj : (e.jobs accesses).head? = none) :
    ¬ out.Usable := by
  intro hu
  rcases hwDecodeJpeg_cases h with rfl | ⟨size, q0, q1, hsize, h0, h1, rfl⟩
  · unfold hwDecodeJpeg at h
    rw [if_neg (not_not.2 hu)] at h
    dsimp only at h
    split at h
    · cases h
    · rw [run_bind] at h
      split at h
      · cases h
      · rw [run_bind, run_pure, Option.some.injEq] at h
        simp at h
  · rw [Engine.jobs_append, Engine.jobs_eq_nil (start_notMem_setup hsize q0 q1), List.nil_append, Engine.jobs,
      if_pos rfl] at hj
    cases hj

/-- The job of a frame of a known format is its own. -/
theorem ownJob_of_known {accesses : List Access} (hi : s.hw.displayInitialized = true) (hp : f.parse = some jpeg)
    (hknown : FormatKnown s.hw { f with bufferNumber := b })
    (hr : (hwDecodeJpeg (s.hw.select b) f.phyInput jpeg).run f.data = some accesses) {job : Job}
    (hj : (s.engine.jobs accesses).head? = some job) :
    (Played.mk f jpeg b (s.hw.select b) (some job)).OwnJob job := by
  by_cases hstart : start ∈ accesses
  · obtain ⟨hu, hs⟩ := (start_mem_iff f.data jpeg (s.hw.select b) f.phyInput).1 ⟨accesses, hr, hstart⟩
    have hformat : getFormat jpeg ≠ 0 := hknown hi jpeg hp hs hu
    obtain ⟨q0, q1, h0, h1, hjobs⟩ := (jobs_decode hr).resolve_left (not_not.2 hstart)
    rw [hjobs, List.head?_cons, Option.some.injEq] at hj
    refine ⟨q0, q1, h0, h1, fun old => ?_⟩
    rw [← hj]
    unfold jobOf
    rw [formatByte_eq_iff.2 hformat _ old]
  · rw [Engine.jobs_eq_nil hstart] at hj
    cases hj

/-- What the engine has made is in the buffer of the frame. -/
theorem Inv.shows (h : Inv render S s) (hx : s.hw.exited = false) (hc : s.capture = .getting f jpeg)
    (hknown : FormatKnown s.hw { f with bufferNumber := b }) {accesses : List Access}
    (hr : (hwDecodeJpeg (s.hw.select b) f.phyInput jpeg).run f.data = some accesses) :
    (Played.mk f jpeg b (s.hw.select b) (s.engine.jobs accesses).head?).Shows render
      (S.blank :: s.display.putFrames)
      ((engineDone render b (s.engine.jobs accesses).head? s).contents (Display.outputBuffer b)) := by
  have hhand := h.hand
  unfold AtHand at hhand
  rw [hc] at hhand
  refine ⟨hhand.1, ?_⟩
  cases hj : (s.engine.jobs accesses).head? with
  | none =>
    refine .inr ⟨rfl, not_usable_of_jobs hr hj, h.old _ fun d hd => ?_⟩
    rw [hc] at hd
    cases hd
  | some job =>
    have hi : s.hw.displayInitialized = true := h.initialized_of_hand hx (by simp [hc, Pc.hand])
    exact .inl ⟨job, s.input, rfl, ownJob_of_known hi hhand.1 hknown hr hj, hhand.2 hx, if_pos rfl⟩

theorem engineDone_putFrames (job : Option Job) : (engineDone render b job s).putFrames = s.display.putFrames := by
  cases job <;> rfl

theorem engineDone_decoder (job : Option Job) : (engineDone render b job s).decoder = s.display.decoder := by
  cases job <;> rfl

theorem engineDone_contents (job : Option Job) {c : UInt8} (hc : c ≠ Display.outputBuffer b) :
    (engineDone render b job s).contents c = s.display.contents c := by
  cases job with
  | none => rfl
  | some job => exact if_neg hc

theorem Inv.decoded (h : Inv render S s) (hx : s.hw.exited = false) (hc : s.capture = .getting f jpeg)
    (hb : s.display.decoder = .holding b) (hknown : FormatKnown s.hw { f with bufferNumber := b })
    {accesses : List Access} (hr : (hwDecodeJpeg (s.hw.select b) f.phyInput jpeg).run f.data = some accesses) :
    Inv render S
      { s with
        hw := Hw.decodeInto { f with bufferNumber := b } jpeg s.hw
        engine := s.engine.run accesses
        display := engineDone render b (s.engine.jobs accesses).head? s
        capture := .putting ⟨f, jpeg, b, s.hw.select b, (s.engine.jobs accesses).head?⟩ } := by
  have hi : s.hw.displayInitialized = true := h.initialized_of_hand hx (by simp [hc, Pc.hand])
  have hframes := h.frames
  rw [hc] at hframes
  refine ⟨fun hn => ?_, fun _ => ?_, hframes, ?_, fun c hne => ?_, ?_, ?_⟩
  · rw [decodeInto_displayInitialized, hi] at hn
    cases hn
  · rw [decodeInto_displayInitialized]
    exact h.initialized hx
  · dsimp only
    rw [engineDone_putFrames]
    exact h.plays
  · have hne := hne _ rfl
    dsimp only at hne ⊢
    rw [engineDone_putFrames, engineDone_contents _ hne]
    refine h.old c fun d hd => ?_
    rw [hc] at hd
    cases hd
  · exact (engineDone_decoder _).trans hb
  · dsimp only
    rw [engineDone_putFrames]
    exact h.shows hx hc hknown hr

theorem Inv.puts (h : Inv render S s) (hx : s.hw.exited = false) {d : Played} (hc : s.capture = .putting d) :
    Inv render S
      { s with display := Display.putBuffer d.buffer s.display, capture := .idle, played := s.played ++ [d] } := by
  have hi : s.hw.displayInitialized = true := h.initialized_of_hand hx (by simp [hc, Pc.hand])
  have hhand := h.hand
  unfold AtHand at hhand
  rw [hc] at hhand
  refine ⟨fun hn => absurd (hi.symm.trans hn) Bool.noConfusion, h.initialized, ?_, h.plays.snoc hhand.2, fun c _ => ?_,
    trivial⟩
  · rw [← h.frames, hc]
    simp [Pc.hand]
  · show s.display.contents c ∈ S.blank :: (s.display.putFrames ++ [s.display.contents (Display.outputBuffer d.buffer)])
    by_cases hcb : c = Display.outputBuffer d.buffer
    · simp [hcb]
    · have hold := h.old c fun d' hd' => by
        rw [hc] at hd'
        cases hd'
        exact hcb
      rw [← List.cons_append]
      exact List.mem_append_left _ hold

end Step

theorem Inv.step (h : Inv render S s) (hx : s.hw.exited = false) (ha : Regular s a) (hs : Trans render S s a s') :
    Inv render S s' := by
  cases hs with
  | dropped _ hf => exact h.dropped hx hf
  | next hc hp hi => exact h.next hx hc hp hi ha
  | fails hc hp hi hz =>
    obtain ⟨hnil, hacc⟩ := h.first hx hp hi hz
    refine ⟨h.before, fun hn => absurd hn (by simp), ?_, h.plays, fun b _ => h.old b fun d hd => ?_, hp,
      fun hn => absurd hn (by simp)⟩
    · dsimp only
      rw [hacc, hnil]
      rfl
    · rw [hc] at hd
      cases hd
  | first _ hp hi hz hd => exact h.starts hx hp hi hz hd ha
  | get hc hd =>
    refine h.displays (h.initialized_of_hand hx (by simp [hc, Pc.hand]))
      (trans_frames (Display.step_cases hd).2 (by simp) (by simp)) fun d hp => ?_
    rw [hc] at hp
    cases hp
  | wakeDecoder hc hd =>
    refine h.displays (h.initialized_of_hand hx (by simp [hc, Pc.hand]))
      (trans_frames (Display.step_cases hd).2 (by simp) (by simp)) fun d hp => ?_
    rw [hc] at hp
    cases hp
  | crashed hc =>
    refine ⟨fun hn => ?_, fun _ => ?_, h.frames, h.plays, h.old, ?_⟩
    · rw [decodeInto_displayInitialized] at hn
      exact h.before hn
    · rw [decodeInto_displayInitialized]
      exact h.initialized hx
    · have hhand := h.hand
      unfold AtHand at hhand ⊢
      rw [hc] at hhand
      dsimp only
      rw [hc]
      exact ⟨hhand.1, fun _ => hhand.2 hx⟩
  | decoded hc hb hr =>
    simp only [Regular, hc, hb] at ha
    exact h.decoded hx hc hb ha hr
  | put hc hd =>
    obtain ⟨b, hb, rfl⟩ := step_put hd
    have hhand := h.hand
    unfold AtHand at hhand
    rw [hc, hb] at hhand
    obtain rfl := Display.DecoderPc.holding.inj hhand.1
    exact h.puts hx hc
  | ended hc hi hd =>
    have hdisplay := h.displays hi (trans_frames (Display.step_cases hd).2 (by simp) (by simp)) fun d hp => by
      rw [hc] at hp
      cases hp
    exact hdisplay.rests hc
  | endedEarly hc => exact h.rests hc
  | thread ho hi hd =>
    refine h.displays hi (trans_frames (Display.step_cases hd).2 ?_ ?_) fun d _ hb =>
      trans_holding (Display.step_cases hd).2 ho hb
    · rintro rfl
      cases ho
    · rintro x rfl
      cases ho

theorem inv_via (h : (machine render S).Via Regular s) : Inv render S s := by
  refine h.invariant (I := Inv render S) (fun s hi => ?_) fun s a s' _ hi ha hs => ?_
  · obtain ⟨⟨hi, -⟩, hd, hc, hq, hp⟩ := hi
    refine ⟨fun _ => ⟨hd, hp⟩, fun _ => ?_, ?_, ?_, fun b _ => ?_, ?_⟩
    · simp [hi, hq, accepted]
    · simp [hp, hc, hq, Pc.hand, accepted]
    · rw [hp, hd]
      exact .nil
    · rw [hd]
      exact List.mem_cons_self
    · simp [AtHand, hc]
  · obtain ⟨hx, ht⟩ := step_cases hs
    exact hi.step hx.1 ha ht

/-! ## The decoder and the threads -/

/-- The decoder is that of a session of its own, on the frames and buffers of this one. -/
def Decodes (s : State F β) : Prop :=
  match s.capture with
  | .getting f jpeg => s.hw.exited = false → ∃ t, Hw.machine.Reach t ∧ t.exited = false ∧
      ∀ b, Hw.hwDecodeJpegMain { f with bufferNumber := b } t = Hw.decodeInto { f with bufferNumber := b } jpeg s.hw
  | _ => Hw.machine.Reach s.hw

omit [DecidableEq β] in
theorem Decodes.reach (h : Decodes s) (hc : s.capture.hand = []) : Hw.machine.Reach s.hw := by
  unfold Decodes at h
  split at h
  · next f jpeg hg =>
    rw [hg] at hc
    cases hc
  · exact h

theorem decodes_reach (h : (machine render S).Reach s) : Decodes s := by
  refine h.invariant (fun s hi => ?_) fun s a s' _ hi hs => ?_
  · obtain ⟨hi, -, hc, -⟩ := hi
    simpa [Decodes, hc] using .start hi
  obtain ⟨⟨hx, -⟩, ht⟩ := step_cases hs
  cases ht with
  | dropped | get | wakeDecoder | thread => exact hi
  | fails => exact fun hn => absurd hn (by simp)
  | next hc hp hinit =>
    refine fun _ => ⟨s.hw, hi.reach (by simp [hc, Pc.hand]), hx, fun b => ?_⟩
    simp [Hw.hwDecodeJpegMain, Frame.parse, show (parseJpeg _).run _ = some _ from hp, hinit, toBuffer]
  | first hc hp hinit hz hd =>
    refine fun _ => ⟨s.hw, hi.reach (by simp [hc, Pc.hand]), hx, fun b => ?_⟩
    simp [Hw.hwDecodeJpegMain, Frame.parse, show (parseJpeg _).run _ = some _ from hp, hinit, hz, hd, toBuffer]
    rfl
  | crashed hc hb hr =>
    unfold Decodes
    dsimp only
    rw [hc]
    intro hn
    rw [decodeInto_none hr] at hn
    cases hn
  | decoded hc hb hr =>
    unfold Decodes at hi
    rw [hc] at hi
    obtain ⟨t, ht, htx, hmain⟩ := hi hx
    show Hw.machine.Reach _
    rw [← hmain]
    exact ht.next (if_neg (by simp [htx]))
  | put hc => simpa [Decodes, hc] using hi
  | ended hc => simpa [Decodes, hc] using hi
  | endedEarly hc => simpa [Decodes, hc] using hi

/-- The threads of the display run as those of a session of their own. -/
def Threads (S : Session F β) (display : Display.State F β) : Prop :=
  ∃ T : Session F β, T.planes = S.planes ∧ T.blank = S.blank ∧ (Display.machine T).Via Display.Signalled display

theorem threads_via (h : (machine render S).Via Regular s) : Threads S s.display := by
  refine h.invariant (I := fun s => Threads S s.display) (fun s hi => ?_) fun s a s' hv hi hc hs => ?_
  · exact ⟨S, rfl, rfl, .start hi.2.1⟩
  obtain ⟨T, hP, hB, hT⟩ := hi
  have hstep {b : Display.Act F β} {display : Display.State F β} (hb : Display.Signalled s.display b)
      (hd : Display.step S.planes s.display b = some display) : Threads S display := by
    rw [← hP] at hd
    exact ⟨T, hP, hB, hT.next hb hd⟩
  obtain ⟨⟨-, hx⟩, ht⟩ := step_cases hs
  cases ht with
  | dropped | next | fails | crashed | endedEarly => exact ⟨T, hP, hB, hT⟩
  | first => exact ⟨sized S _, rfl, rfl, .start rfl⟩
  | get _ hd => exact hstep (b := .get) trivial hd
  | wakeDecoder _ hd => exact hstep (b := .wakeDecoder) hc hd
  | put _ hd => exact hstep (b := .put) trivial hd
  | ended _ _ hd => exact hstep (b := .endDecoder) trivial hd
  | thread _ _ hd => exact hstep hc hd
  | decoded _ hb _ =>
    dsimp only
    unfold engineDone
    split
    · next job _ => exact hstep (b := .decode (render job s.input)) trivial (by simp [Display.step, hx, hb])
    · exact ⟨T, hP, hB, hT⟩

/-! ## The session -/

/-- What is on the planes: the frames the camera delivered are those played and the one in
hand, in their order; a picture was put for each frame played; and each plane has shown the
blank one and the first of these pictures. -/
structure Screen (render : Job → (Nat → UInt8) → F) (S : Session F β) (s : State F β) : Prop where
  frames : s.played.map Played.frame ++ s.capture.hand = accepted s.dequeued
  pictures : ∃ pictures, Plays render S.blank s.played pictures ∧
    ∀ p, S.planes.has p = true → s.display.shown p <+: S.blank :: pictures
  /-- between two frames the decoder is that of a session on these frames alone -/
  decoder : s.capture.hand = [] → Hw.machine.Reach s.hw

/-- **From the camera to the screen.** In every session without spurious wake-ups whose
frames fit the input buffer and are of formats the engine knows. -/
theorem camera_to_screen (h : (machine render S).Via Regular s) : Screen render S s := by
  have hi := inv_via h
  obtain ⟨T, hP, hB, hT⟩ := threads_via h
  refine ⟨hi.frames, ⟨_, hi.plays, fun p hp => ?_⟩, (decodes_reach h.reach).reach⟩
  rw [← hP] at hp
  rw [← hB]
  exact Fifo.left_prefix (Display.reach_frameQueue hT hp)

/-- The length of the scan and its first byte, for a picture. -/
def sampleRender (job : Job) (input : Nat → UInt8) : UInt32 × UInt8 := (job.vldLen, input 0)

/-- A session with the HDMI plane alone. -/
def sample : Session (UInt32 × UInt8) Nat := ⟨⟨true, false⟩, 0, 0, (0, 0), false, false, fun _ => 0, fun _ => none⟩

def startState : State (UInt32 × UInt8) Nat :=
  ⟨Hw.initState, ⟨fun _ => 0, fun _ => 0, fun _ => 0, fun _ => 0, 0⟩, fun _ => 0, 65536, Display.initDisplay sample,
    .idle, [], []⟩

theorem init_startState : (machine sampleRender sample).init startState :=
  ⟨⟨rfl, rfl, rfl, rfl⟩, rfl, rfl, rfl, rfl⟩

/-- Two frames, the first of which does not parse, and two rounds of the display thread. -/
def twoFrames : List (Act (UInt32 × UInt8) Nat) :=
  [.frame { Hw.pictureFrame 16 0 with dataLen := 1 }, .frame (Hw.pictureFrame 16 0), .get, .decode, .put] ++
    List.replicate 10 (.thread (.display false))

instance (s : State F β) (f : Frame) : Decidable (Fits s f) :=
  inferInstanceAs (Decidable (∀ jpeg ∈ f.parse, _ → _))

instance (hw : Hw.State) (f : Frame) : Decidable (FormatKnown hw f) :=
  inferInstanceAs (Decidable (_ → ∀ jpeg ∈ f.parse, _ → _ → _))

instance (hw : Hw.State) : (pc : Pc) → (decoder : Display.DecoderPc) → Decidable (Known hw pc decoder)
  | .getting f _, .holding b => inferInstanceAs (Decidable (FormatKnown hw { f with bufferNumber := b }))
  | .getting .., .idle | .getting .., .waiting _ | .getting .., .ended => isTrue trivial
  | .idle, _ | .putting _, _ | .ended, _ => isTrue trivial

instance (s : State (UInt32 × UInt8) Nat) : (a : Act (UInt32 × UInt8) Nat) → Decidable (Regular s a)
  | .frame f => inferInstanceAs (Decidable (Fits s f))
  | .decode => inferInstanceAs (Decidable (Known s.hw s.capture s.display.decoder))
  | .wakeDecoder => inferInstanceAs (Decidable (_ = _))
  | .thread .wakeDisplay => inferInstanceAs (Decidable (_ = _))
  | .thread .wakeDecoder => inferInstanceAs (Decidable (_ = _))
  | .thread .get | .thread (.decode _) | .thread .put | .thread .endDecoder | .thread (.display _)
  | .thread (.setDrm _ _) | .thread .setDrmNext | .thread .main => isTrue trivial
  | .get | .put | .endCapture => isTrue trivial

theorem camera_to_screen_sample : ∃ s, (machine sampleRender sample).execIf Regular startState twoFrames = some s ∧
    s.display.hdmiShown = [(0, 0), (8, 0)] ∧ Screen sampleRender sample s := by
  obtain ⟨s, hs, hp⟩ := Option.map_eq_some_iff.1
    (by decide +kernel : ((machine sampleRender sample).execIf Regular startState twoFrames).map
      (fun s => s.display.hdmiShown == [(0, 0), (8, 0)]) = some true)
  exact ⟨s, hs, by simpa using hp, camera_to_screen (Machine.Via.execIf (.start init_startState) hs)⟩

end Camview.Pipeline
