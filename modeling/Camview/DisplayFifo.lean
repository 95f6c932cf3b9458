/-
The triple buffer refines a queue of frames (`Camview.Fifo`), when waits return
only after a signal (`Signalled`).

For each plane, the frames put there leave a queue that `put_buffer` enters:
what waits is the contents of the display queue, after the buffer in the
display thread's hand while it is yet to be set on that plane. `triple_buffer_fifo`
reads the queue's law back. That the contents of a waiting or shown buffer stay
(`live_contents`) is the ownership of `Camview.DisplayBuffers`: the decoder
writes only to the buffer in its hand.
-/
import Camview.DisplayBuffers
import Camview.Fifo

namespace Camview.Display

open BufferT

variable {F β : Type}

/-- The two planes of the loop, `new_planes[0]` and `new_planes[1]`. -/
inductive Plane
  | hdmi
  | composite

def Planes.has (P : Planes) : Plane → Bool
  | .hdmi => P.hdmi
  | .composite => P.composite

/-- The contents put on a plane so far. -/
def State.shown (s : State F β) : Plane → List F
  | .hdmi => s.hdmiShown
  | .composite => s.compositeShown

/-- The buffer last set on a plane. -/
def State.onPlane (s : State F β) : Plane → Option UInt8
  | .hdmi => s.hdmiPlane
  | .composite => s.compositePlane

/-- Where in the loop the taken buffer is still to be set on the plane. -/
def Plane.yetToShow : Plane → DisplayPc → Bool
  | _, .drawHdmi => true
  | .composite, .drawComposite => true
  | _, _ => false

@[simp] theorem Plane.yetToShow_signal (p : Plane) (pc : DisplayPc) : p.yetToShow pc.signal = p.yetToShow pc := by
  cases p <;> cases pc <;> rfl

/-- The contents waiting to be shown on a plane. -/
def waitingFrames (p : Plane) (s : State F β) : List F :=
  (if p.yetToShow s.display then [s.contents s.displayBuffer] else []) ++
    s.currentDisplayBuffer.queue.map s.contents

/-- The queue of frames the plane is the end of. -/
def frameQueue (blank : F) (p : Plane) (s : State F β) : Fifo.Queue F where
  waiting := waitingFrames p s
  entered := blank :: s.putFrames
  left := s.shown p

/-! ## What a step does to the frames -/

/-- Taking a buffer only moves it to the front of what waits. -/
theorem waitingFrames_takeHead {p : Plane} {s : State F β} (ho : Owned s) (hq : s.currentDisplayBuffer.s0 ≠ 0)
    (hd : p.yetToShow s.display = false) : waitingFrames p (takeHead s) = waitingFrames p s := by
  have hy : p.yetToShow .drawHdmi = true := by cases p <;> rfl
  simp [waitingFrames, takeHead, hd, hy, queue_eq_token_append ho.display, token_of_ne hq]

/-- What is put enters behind what waits. -/
theorem waitingFrames_putBuffer {p : Plane} {s : State F β} {b : UInt8} (ho : Owned s)
    (hd : s.decoder = .holding b) (h0 : b ≠ 0) :
    waitingFrames p (putBuffer b s) = waitingFrames p s ++ [s.contents (outputBuffer b)] := by
  have hh : s.decoder.hand = b := by rw [hd]; rfl
  have hr : b ≠ 0 → ¬ s.currentDisplayBuffer.Full := fun e => ho.displayRoom (by rwa [hh])
  have hb := ho.output_hand (by rwa [hh])
  rw [hh] at hb
  simp [waitingFrames, putBuffer, put_queue ho.display hr, token_of_ne h0, hb]

/-- Decoding writes to the buffer in hand only. -/
theorem decodeInto_contents {s : State F β} {b c : UInt8} {frame : F} (h : c ≠ outputBuffer b) :
    (decodeInto b frame s).contents c = s.contents c := by
  simp [decodeInto, h]

/-- Decoding does not touch what waits. -/
theorem waitingFrames_decodeInto {p : Plane} {s : State F β} {b : UInt8} {frame : F} (he : Exclusive s)
    (hd : s.decoder = .holding b) : waitingFrames p (decodeInto b frame s) = waitingFrames p s := by
  obtain ⟨h1, -, h3, -⟩ := he b hd
  have hq : s.currentDisplayBuffer.queue.map (decodeInto b frame s).contents =
      s.currentDisplayBuffer.queue.map s.contents :=
    List.map_congr_left fun c hc => decodeInto_contents fun e => h3 (e ▸ hc)
  have hb : (decodeInto b frame s).contents s.displayBuffer = s.contents s.displayBuffer :=
    decodeInto_contents (Ne.symm h1)
  change (if p.yetToShow s.display then [(decodeInto b frame s).contents s.displayBuffer] else []) ++
    s.currentDisplayBuffer.queue.map (decodeInto b frame s).contents = _
  rw [hq, hb]
  rfl

variable [DecidableEq β]

/-- Runs without spurious wake-ups wake the decoder only to a buffer. -/
theorem via_signalled {S : Session F β} {s : State F β} (h : (machine S).Via Signalled s) :
    (machine S).Via WakesToBuffer s := by
  refine h.mono fun s a hr hc => ?_
  cases a with
  | wakeDecoder => exact (reach_waits hr).woken hc
  | _ => trivial

theorem via_exclusive {S : Session F β} {s : State F β} (h : (machine S).Via Signalled s) : Exclusive s :=
  (reach_owned h.reach).exclusive (via_holding_ne_zero (via_signalled h))

/-- A step of the threads is a step of a plane's queue, or none. -/
theorem frameQueue_step {S : Session F β} {p : Plane} {s s' : State F β} {a : Act F β}
    (hv : (machine S).Via Signalled s) (hp : S.planes.has p = true) (hs : (machine S).step s a = some s') :
    frameQueue S.blank p s' = frameQueue S.blank p s ∨
      ∃ b, (Fifo.machine [S.blank]).step (frameQueue S.blank p s) b = some (frameQueue S.blank p s') := by
  have ho := reach_owned hv.reach
  obtain ⟨-, ht⟩ := step_cases hs
  cases ht with
  | @put b hd =>
    refine .inr ⟨.enter (s.contents (outputBuffer b)), ?_⟩
    have hw := waitingFrames_putBuffer (p := p) ho hd (via_holding_ne_zero (via_signalled hv) b hd)
    simp only [Fifo.machine, Fifo.step, frameQueue, hw]
    cases p <;> rfl
  | showHdmi hd =>
    cases p with
    | hdmi =>
      right
      exact ⟨.leave, by simp [Fifo.machine, Fifo.step, frameQueue, waitingFrames, hd, Plane.yetToShow, Display.showHdmi,
        State.shown]⟩
    | composite =>
      left
      simp [frameQueue, waitingFrames, hd, Plane.yetToShow, Display.showHdmi, State.shown]
  | showComposite hd =>
    cases p with
    | hdmi =>
      left
      simp [frameQueue, waitingFrames, hd, Plane.yetToShow, Display.showComposite, State.shown]
    | composite =>
      right
      exact ⟨.leave, by simp [Fifo.machine, Fifo.step, frameQueue, waitingFrames, hd, Plane.yetToShow,
        Display.showComposite, State.shown]⟩
  | noHdmi hd hn =>
    cases p with
    | hdmi => rw [Planes.has, hn] at hp; cases hp
    | composite =>
      left
      simp [frameQueue, waitingFrames, hd, Plane.yetToShow, State.shown]
  | noComposite hd hn =>
    cases p with
    | hdmi =>
      left
      simp [frameQueue, waitingFrames, hd, Plane.yetToShow, State.shown]
    | composite => rw [Planes.has, hn] at hp; cases hp
  | take hd hq | wakeTake hd hq =>
    left
    have hw := waitingFrames_takeHead (p := p) ho hq (by rw [hd]; cases p <;> rfl)
    simp only [frameQueue, hw]
    cases p <;> rfl
  | decode hd =>
    left
    simp only [frameQueue, waitingFrames_decodeInto (via_exclusive hv) hd]
    cases p <;> rfl
  | signal =>
    left
    simp only [frameQueue, waitingFrames, Plane.yetToShow_signal]
    cases p <;> rfl
  | @apply b f hd =>
    left
    cases p <;> cases b <;> simp [frameQueue, waitingFrames, hd, Plane.yetToShow, Block.next, sendBlock, State.shown]
  | testOn hd | testOff hd | wait hd | wakeEmpty hd | drawn hd | pending hd | noPending hd | clearPending hd
  | giveBack hd | noGiveBack hd =>
    left
    cases p <;> simp [frameQueue, waitingFrames, hd, Plane.yetToShow, returnPrev, State.shown]
  | _ => left; cases p <;> rfl

/-- Without spurious wake-ups the threads refine a queue of frames for each plane. -/
theorem reach_frameQueue {S : Session F β} {p : Plane} {s : State F β} (h : (machine S).Via Signalled s)
    (hp : S.planes.has p = true) : (Fifo.machine [S.blank]).Reach (frameQueue S.blank p s) := by
  refine h.refines (frameQueue S.blank p) (fun s hi => ?_) fun s a s' hv _ hs => frameQueue_step hv hp hs
  rw [show s = initDisplay S from hi]
  cases p <;> rfl

/-! ## The contents of a buffer in use -/

/-- A buffer between its `put_buffer` and the moment another one has replaced
it: queued for display, taken by the display thread, or still on a plane. -/
def Live (s : State F β) (b : UInt8) : Prop :=
  b ∈ s.currentDisplayBuffer.queue ∨ b = s.displayBuffer ∨ ∃ p, s.onPlane p = some b

/-- Another buffer has replaced `b` on every plane there is. -/
def Replaced (P : Planes) (s : State F β) (b : UInt8) : Prop :=
  s.displayBuffer ≠ b ∧ ∀ p, P.has p = true → s.onPlane p = some s.displayBuffer

omit [DecidableEq β] in
theorem live_of_eq {s t : State F β} {b : UInt8} (h : Live s b)
    (hq : t.currentDisplayBuffer = s.currentDisplayBuffer) (hd : t.displayBuffer = s.displayBuffer)
    (hh : t.hdmiPlane = s.hdmiPlane) (hc : t.compositePlane = s.compositePlane) : Live t b := by
  refine h.imp (fun e => hq ▸ e) (.imp (fun e => e.trans hd.symm) fun ⟨p, e⟩ => ⟨p, ?_⟩)
  cases p with
  | hdmi => exact hh.trans e
  | composite => exact hc.trans e

omit [DecidableEq β] in
/-- A live buffer is never the one the decoder writes to. -/
theorem Live.ne_output {P : Planes} {s : State F β} {b c : UInt8} (hl : Live s b) (hs : Shown P s)
    (he : Exclusive s) (hd : s.decoder = .holding c) : b ≠ outputBuffer c := by
  obtain ⟨h1, h2, h3, -⟩ := he c hd
  have hplane : b = s.displayBuffer ∨ b = s.prevDisplayBuffer → b ≠ outputBuffer c := by
    rintro (e | e) e'
    · exact h1 (e' ▸ e)
    · exact h2 (e' ▸ e)
  rcases hl with hl | hl | ⟨p, hl⟩
  · exact fun e => h3 (e ▸ hl)
  · exact hplane (.inl hl)
  · cases p with
    | hdmi => exact hplane (hs.hdmi_mem hl)
    | composite => exact hplane (hs.composite_mem hl)

/-- No step changes the contents of a live buffer. -/
theorem live_contents {S : Session F β} {s s' : State F β} {a : Act F β} {b : UInt8}
    (hv : (machine S).Via Signalled s) (hl : Live s b) (hs : (machine S).step s a = some s') :
    s'.contents b = s.contents b := by
  obtain ⟨-, ht⟩ := step_cases hs
  cases ht with
  | decode hd => exact decodeInto_contents (hl.ne_output (reach_shown hv.reach) (via_exclusive hv) hd)
  | _ => rfl

omit [DecidableEq β] in
/-- Taking a buffer replaces the one before only when there is no plane to show it on. -/
theorem takeHead_lost {P : Planes} {s : State F β} {b : UInt8} (ho : Owned s) (hs : Shown P s) (h0 : b ≠ 0)
    (hr : s.display.resting = true) (hf : s.display ≠ .finished) (hl : Live s b)
    (hn : ¬ Live (takeHead s) b) : Replaced P (takeHead s) b := by
  have hd0 : s.display ≠ .drawHdmi := fun e => by simp [e, DisplayPc.resting] at hr
  have hd1 : s.display ≠ .drawComposite := fun e => by simp [e, DisplayPc.resting] at hr
  obtain ⟨eh, ec⟩ := hs.settled hd0 hd1 hf
  refine ⟨fun e => hn (.inr (.inl e.symm)), fun p hp => absurd ?_ hn⟩
  rcases hl with hl | hl | hl
  · rw [queue_eq_token_append ho.display, List.mem_append, mem_token] at hl
    exact hl.elim (fun e => .inr (.inl e.2)) .inl
  · refine .inr (.inr ⟨p, ?_⟩)
    cases p with
    | hdmi => exact eh.trans (onPlane_eq_some.2 ⟨hp, hl ▸ h0, hl.symm⟩)
    | composite => exact ec.trans (onPlane_eq_some.2 ⟨hp, hl ▸ h0, hl.symm⟩)
  · exact .inr (.inr hl)

omit [DecidableEq β] in
/-- What was on the HDMI plane only is replaced when that plane is all there is. -/
theorem showHdmi_lost {P : Planes} {s : State F β} {b : UInt8} (hs : Shown P s) (hd : s.display = .drawHdmi)
    (hl : Live s b) (hn : ¬ Live (showHdmi s) b) : Replaced P (showHdmi s) b := by
  have eh := hs.hdmi.resolve_right (by simp [hd])
  have ec := hs.composite.resolve_right (by simp [hd])
  simp only [hd, true_or, if_true] at eh ec
  refine ⟨fun e => hn (.inr (.inl e.symm)), fun p hp => ?_⟩
  cases p with
  | hdmi => rfl
  | composite =>
    refine absurd ?_ hn
    rcases hl with hl | hl | ⟨p, hl⟩
    · exact .inl hl
    · exact .inr (.inl hl)
    · refine .inr (.inr ⟨.composite, ?_⟩)
      cases p with
      | composite => exact hl
      | hdmi =>
        obtain ⟨-, e0, e⟩ := onPlane_eq_some.1 (eh.symm.trans hl)
        exact ec.trans (onPlane_eq_some.2 ⟨hp, e0, e⟩)

omit [DecidableEq β] in
/-- Once the composite plane is set, both planes show the buffer taken. -/
theorem showComposite_lost {P : Planes} {s : State F β} {b : UInt8} (hs : Shown P s)
    (hd : s.display = .drawComposite) (hn : ¬ Live (showComposite s) b) : Replaced P (showComposite s) b := by
  have eh := hs.hdmi.resolve_right (by simp [hd])
  simp only [hd, reduceCtorEq, if_false] at eh
  refine ⟨fun e => hn (.inr (.inl e.symm)), fun p hp => ?_⟩
  cases p with
  | hdmi => exact eh.trans (onPlane_eq_some.2 ⟨hp, hs.drawing (.inr hd), rfl⟩)
  | composite => rfl

omit [DecidableEq β] in
/-- Once the display thread has ended, what is left on a plane is its `display_buffer`. -/
theorem onPlane_finished {P : Planes} {s : State F β} {p : Plane} {b : UInt8} (hs : Shown P s)
    (hf : s.display = .finished) (hb : s.onPlane p = some b) : b = s.displayBuffer := by
  cases p with
  | hdmi => simpa [hf] using eq_of_onPlane hs.hdmi hb
  | composite => simpa [hf] using eq_of_onPlane hs.composite hb

/-- A buffer stops being live when another one has replaced it on every plane. -/
theorem live_lost {S : Session F β} {s s' : State F β} {a : Act F β} {b : UInt8} (h : (machine S).Reach s)
    (h0 : b ≠ 0) (hl : Live s b) (hs : (machine S).step s a = some s') (hn : ¬ Live s' b) :
    Replaced S.planes s' b := by
  have ho := reach_owned h
  have hsh := reach_shown h
  obtain ⟨-, ht⟩ := step_cases hs
  cases ht with
  | take hd => exact takeHead_lost ho hsh h0 (by simp [hd, DisplayPc.resting]) (by simp [hd]) hl hn
  | wakeTake hd => exact takeHead_lost ho hsh h0 (by simp [hd, DisplayPc.resting]) (by simp [hd]) hl hn
  | showHdmi hd => exact showHdmi_lost hsh hd hl hn
  | showComposite hd => exact showComposite_lost hsh hd hn
  | @put c hd =>
    have hr : c ≠ 0 → ¬ s.currentDisplayBuffer.Full := fun e => ho.displayRoom (by rwa [hd])
    refine absurd (hl.imp (fun e => ?_) id) hn
    simp [Display.putBuffer, put_queue ho.display hr, e]
  | tearDown hm =>
    have hp {p : Plane} (e : s.onPlane p = some b) : b = s.displayBuffer := onPlane_finished hsh (hsh.joined hm) e
    exact absurd (hl.imp id fun e => .inl (e.elim id fun e => e.elim fun _ e => hp e)) hn
  | _ => exact absurd (live_of_eq hl rfl rfl rfl rfl) hn

/-- **The triple buffer is a queue of frames.** In every run without spurious
wake-ups, what was put on a plane is a prefix of the blank picture followed by
the frames passed to `put_buffer`, in their order. A buffer is live from its
`put_buffer` until another one has replaced it on every plane, and while it is
live its contents are those it was put with. -/
theorem triple_buffer_fifo (S : Session F β) :
    (∀ s p, (machine S).Via Signalled s → S.planes.has p = true → s.shown p <+: S.blank :: s.putFrames) ∧
    (∀ s b s₁, (machine S).Via Signalled s → s.decoder = .holding b → (machine S).step s .put = some s₁ →
      Live s₁ b ∧ s₁.putFrames = s.putFrames ++ [s₁.contents b] ∧
      ∀ t, (machine S).Steps (fun u a => Signalled u a ∧ Live u b) s₁ t → t.contents b = s₁.contents b) ∧
    ∀ s a s' b, (machine S).Via Signalled s → b ≠ 0 → Live s b → (machine S).step s a = some s' → ¬ Live s' b →
      Replaced S.planes s' b := by
  refine ⟨fun s p hv hp => Fifo.left_prefix (reach_frameQueue hv hp), fun s b s₁ hv hd hs => ?_,
    fun s a s' b hv h0 hl hs hn => live_lost hv.reach h0 hl hs hn⟩
  have ho := reach_owned hv.reach
  have h0 := via_holding_ne_zero (via_signalled hv) b hd
  have hh : s.decoder.hand = b := by rw [hd]; rfl
  have hv₁ : (machine S).Via Signalled s₁ := hv.next (by trivial : Signalled s .put) hs
  have ht := (step_cases (show step S.planes s .put = some s₁ from hs)).2
  cases ht with
  | @put c hd' =>
    obtain rfl : c = b := by rw [hd] at hd'; cases hd'; rfl
    have hr : c ≠ 0 → ¬ s.currentDisplayBuffer.Full := fun _ => ho.displayRoom (by rwa [hh])
    have hout : outputBuffer c = c := by rw [← hh]; exact ho.output_hand (by rwa [hh])
    refine ⟨.inl ?_, ?_, fun t hst => ?_⟩
    · simp [Display.putBuffer, put_queue ho.display hr, token_of_ne h0]
    · simp [Display.putBuffer, hout]
    · refine Machine.Steps.invariant (I := fun u => u.contents c = (putBuffer c s).contents c) hv₁
        (fun _ _ h => h.1) (fun u a u' hu ih hc hs' => ?_) hst rfl
      rw [live_contents hu hc.2 hs', ih]

theorem triple_buffer_fifo_sample :
    ∃ s, (machine sample).exec (initDisplay sample) firstFrame = some s ∧ s.hdmiShown = [0] ∧
      s.hdmiShown <+: 0 :: s.putFrames ∧
      ∃ s₁, (machine sample).step s .put = some s₁ ∧ Live s₁ 2 ∧ s₁.putFrames = [7] := by
  obtain ⟨s, hs, hd, hh, hp, s₁, hs₁, hp₁⟩ :
      ∃ s, (machine sample).exec (initDisplay sample) firstFrame = some s ∧ s.decoder = .holding 2 ∧
        s.hdmiShown = [0] ∧ s.putFrames = [] ∧ ∃ s₁, (machine sample).step s .put = some s₁ ∧ s₁.putFrames = [7] :=
    ⟨_, rfl, rfl, rfl, rfl, _, rfl, rfl⟩
  have hv : (machine sample).Via Signalled s := Machine.Via.exec (.start rfl) (fun a ha t => by
    simp only [firstFrame, List.mem_cons, List.not_mem_nil, or_false] at ha
    rcases ha with rfl | rfl | rfl | rfl | rfl | rfl <;> trivial) hs
  exact ⟨s, hs, hh, (triple_buffer_fifo sample).1 s .hdmi hv rfl, s₁, hs₁,
    ((triple_buffer_fifo sample).2.1 s 2 s₁ hv hd hs₁).1, hp₁⟩

end Camview.Display
