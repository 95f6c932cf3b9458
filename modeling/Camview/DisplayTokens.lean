/-
Who holds which buffer. The three invariants of the display threads, each kept
by every step (`Trans`), spurious wake-ups included:

* `Owned`: the buffer numbers in the two queues, in the decoder's hand and in
  the display thread's two locals are exactly 1, 2, 3, once each;
* `Shown`: a plane shows the display thread's `display_buffer`, or its
  `prev_display_buffer` as long as the new one has not been set on it;
* `Waits`: a thread waits unsignalled only while the queue it waits for is empty.
-/
import Camview.DisplayThreads
import Mathlib.Data.List.Perm.Basic

namespace Camview.Display

open BufferT

variable {F β : Type}

/-- The number the decoder holds between `get_buffer_number` and `put_buffer`. -/
def DecoderPc.hand : DecoderPc → UInt8
  | .holding b => b
  | _ => 0

@[simp] theorem DecoderPc.hand_idle : DecoderPc.idle.hand = 0 := rfl
@[simp] theorem DecoderPc.hand_waiting (b : Bool) : (DecoderPc.waiting b).hand = 0 := rfl
@[simp] theorem DecoderPc.hand_holding (b : UInt8) : (DecoderPc.holding b).hand = b := rfl
@[simp] theorem DecoderPc.hand_ended : DecoderPc.ended.hand = 0 := rfl

/-- Outside the part of the loop in which a previous buffer may be held. -/
def DisplayPc.resting : DisplayPc → Bool
  | .test | .lock | .waiting _ | .finished => true
  | _ => false

@[simp] theorem DecoderPc.signal_hand (pc : DecoderPc) : pc.signal.hand = pc.hand := by cases pc <;> rfl

@[simp] theorem DisplayPc.signal_resting (pc : DisplayPc) : pc.signal.resting = pc.resting := by cases pc <;> rfl

theorem DecoderPc.signal_ne_waiting (pc : DecoderPc) : pc.signal ≠ .waiting false := by
  cases pc <;> simp [signal]

theorem DisplayPc.signal_ne_waiting (pc : DisplayPc) : pc.signal ≠ .waiting false := by
  cases pc <;> simp [signal]

/-- A signal moves only a waiter. -/
theorem DecoderPc.signal_eq_iff (pc pc' : DecoderPc) (h : ∀ b, pc' ≠ .waiting b) :
    pc.signal = pc' ↔ pc = pc' := by
  cases pc with
  | waiting b => exact ⟨fun e => absurd e.symm (h _), fun e => absurd e.symm (h _)⟩
  | _ => rfl

theorem DisplayPc.signal_eq_iff (pc pc' : DisplayPc) (h : ∀ b, pc' ≠ .waiting b) :
    pc.signal = pc' ↔ pc = pc' := by
  cases pc with
  | waiting b => exact ⟨fun e => absurd e.symm (h _), fun e => absurd e.symm (h _)⟩
  | _ => rfl

/-- Every buffer number held anywhere. -/
def State.tokens (s : State F β) : List UInt8 :=
  s.currentAvailableBuffer.queue ++ s.currentDisplayBuffer.queue ++ token s.decoder.hand ++
    token s.displayBuffer ++ token s.prevDisplayBuffer

/-! ## Ownership -/

/-- Both arrays are queues, and the numbers held are 1, 2 and 3, once each. -/
structure Owned (s : State F β) : Prop where
  available : s.currentAvailableBuffer.Packed
  display : s.currentDisplayBuffer.Packed
  perm : s.tokens.Perm [1, 2, 3]
  resting : s.display.resting = true → s.prevDisplayBuffer = 0

theorem Owned.length {s : State F β} (h : Owned s) :
    s.currentAvailableBuffer.queue.length + s.currentDisplayBuffer.queue.length +
      (token s.decoder.hand).length + (token s.displayBuffer).length + (token s.prevDisplayBuffer).length = 3 := by
  simpa [State.tokens, Nat.add_assoc] using h.perm.length_eq

/-- A step that leaves as many of each number as there were. -/
theorem Owned.perm_of_count {s t : State F β} (h : Owned s) (hc : ∀ b, t.tokens.count b = s.tokens.count b) :
    t.tokens.Perm [1, 2, 3] := (List.perm_iff_count.2 hc).trans h.perm

theorem Owned.availableRoom {s : State F β} (h : Owned s) (hp : s.prevDisplayBuffer ≠ 0) :
    ¬ s.currentAvailableBuffer.Full := by
  have := h.length
  rw [token_of_ne hp] at this
  rw [full_iff_length]
  simp only [List.length_singleton] at this
  omega

theorem Owned.displayRoom {s : State F β} (h : Owned s) (hb : s.decoder.hand ≠ 0) :
    ¬ s.currentDisplayBuffer.Full := by
  have := h.length
  rw [token_of_ne hb] at this
  rw [full_iff_length]
  simp only [List.length_singleton] at this
  omega

theorem owned_initDisplay (S : Session F β) : Owned (initDisplay S) where
  available := (by decide : (⟨2, 3, 0⟩ : BufferT).Packed)
  display := (by decide : (⟨1, 0, 0⟩ : BufferT).Packed)
  perm := by
    have h : (initDisplay S).tokens = [2, 3, 1] := rfl
    rw [h]
    decide
  resting := fun _ => rfl

theorem Owned.dequeueAvailable {s : State F β} (h : Owned s) (hd : s.decoder.hand = 0) :
    Owned (dequeueAvailable s) where
  available := forward_packed h.available
  display := h.display
  perm := by
    refine h.perm_of_count fun b => ?_
    simp only [State.tokens, Display.dequeueAvailable, DecoderPc.hand_holding, hd, token_zero, List.count_nil,
      queue_eq_token_append h.available, List.count_append]
    omega
  resting := h.resting

theorem Owned.putBuffer {s : State F β} (h : Owned s) {b : UInt8} (hd : s.decoder = .holding b) :
    Owned (putBuffer b s) where
  available := h.available
  display := put_packed h.display b
  perm := by
    have hroom : b ≠ 0 → ¬ s.currentDisplayBuffer.Full := fun hb => h.displayRoom (by rwa [hd])
    refine h.perm_of_count fun b' => ?_
    simp only [State.tokens, Display.putBuffer, hd, DecoderPc.hand_holding, DecoderPc.hand_idle, token_zero,
      put_queue h.display hroom, List.count_append, List.count_nil]
    omega
  resting := fun hr => h.resting (by simpa [Display.putBuffer] using hr)

theorem Owned.takeHead {s : State F β} (h : Owned s) (hr : s.display.resting = true) : Owned (takeHead s) where
  available := h.available
  display := forward_packed h.display
  perm := by
    refine h.perm_of_count fun b => ?_
    simp only [State.tokens, Display.takeHead, h.resting hr, token_zero, queue_eq_token_append h.display,
      List.count_append, List.count_nil]
    omega
  resting := fun hr => by simp [Display.takeHead, DisplayPc.resting] at hr

theorem Owned.returnPrev {s : State F β} (h : Owned s) (hp : s.prevDisplayBuffer ≠ 0) : Owned (returnPrev s) where
  available := put_packed h.available _
  display := h.display
  perm := by
    refine h.perm_of_count fun b => ?_
    simp only [State.tokens, Display.returnPrev, DecoderPc.signal_hand, token_zero,
      put_queue h.available fun _ => h.availableRoom hp, List.count_append, List.count_nil]
    omega
  resting := fun _ => rfl

theorem Owned.step {P : Planes} {s s' : State F β} {a : Act F β} (h : Owned s) (hs : Trans P s a s') :
    Owned s' := by
  cases hs with
  | getAvailable hd => exact h.dequeueAvailable (by simp [hd])
  | wakeDecoder hd => exact h.dequeueAvailable (by simp [hd])
  | getWait hd | getFail hd | endDecoder hd =>
    exact ⟨h.available, h.display, by simpa [State.tokens, hd] using h.perm, h.resting⟩
  | put hd => exact h.putBuffer hd
  | take hd => exact h.takeHead (by simp [hd, DisplayPc.resting])
  | wakeTake hd => exact h.takeHead (by simp [hd, DisplayPc.resting])
  | giveBack _ hp => exact h.returnPrev hp
  | noGiveBack _ hp => exact ⟨h.available, h.display, h.perm, fun _ => hp⟩
  | testOn hd | testOff hd | wait hd =>
    exact ⟨h.available, h.display, h.perm, fun _ => h.resting (by simp [hd, DisplayPc.resting])⟩
  | wakeEmpty | showHdmi | noHdmi | showComposite | noComposite | drawn | pending | noPending | clearPending =>
    exact ⟨h.available, h.display, h.perm,
      fun hr => by simp [Display.showHdmi, Display.showComposite, DisplayPc.resting] at hr⟩
  | @apply b _ hd =>
    exact ⟨h.available, h.display, h.perm, fun hr => by cases b <;> simp [Block.next, DisplayPc.resting] at hr⟩
  | signal => exact ⟨h.available, h.display, h.perm, fun hr => h.resting (by simpa using hr)⟩
  | _ => exact ⟨h.available, h.display, h.perm, h.resting⟩

/-! ## The planes -/

/-- What shows a plane on which `b` was last set, 0 for nothing. -/
def onPlane (present : Bool) (b : UInt8) : Option UInt8 := if present && b ≠ 0 then some b else none

theorem onPlane_eq_some {present : Bool} {b c : UInt8} :
    onPlane present b = some c ↔ present = true ∧ b ≠ 0 ∧ b = c := by
  unfold onPlane
  split
  · next h => simp_all
  · next h => simp_all

/-- If anything is on a plane, it is what was last set there. -/
theorem eq_of_onPlane {present : Bool} {plane : Option UInt8} {b c : UInt8} {removed : Prop}
    (h : plane = onPlane present c ∨ removed ∧ plane = none) (hb : plane = some b) : b = c := by
  rcases h with e | ⟨-, e⟩
  · exact (onPlane_eq_some.1 (e.symm.trans hb)).2.2.symm
  · rw [hb] at e
    cases e

@[simp] theorem onPlane_absent (b : UInt8) : onPlane false b = none := rfl

@[simp] theorem onPlane_zero (present : Bool) : onPlane present 0 = none := by simp [onPlane]

/-- What is on a plane is `display_buffer`, or `prev_display_buffer` while the
new one is yet to be set there; after `terminate_display` nothing is. -/
structure Shown (P : Planes) (s : State F β) : Prop where
  hdmi : s.hdmiPlane = onPlane P.hdmi (if s.display = .drawHdmi then s.prevDisplayBuffer else s.displayBuffer) ∨
    s.display = .finished ∧ s.hdmiPlane = none
  composite : s.compositePlane = onPlane P.composite
      (if s.display = .drawHdmi ∨ s.display = .drawComposite then s.prevDisplayBuffer else s.displayBuffer) ∨
    s.display = .finished ∧ s.compositePlane = none
  drawing : s.display = .drawHdmi ∨ s.display = .drawComposite → s.displayBuffer ≠ 0
  joined : s.main = .tearDown → s.display = .finished

theorem shown_initDisplay (S : Session F β) : Shown S.planes (initDisplay S) where
  hdmi := .inl (onPlane_zero _).symm
  composite := .inl (onPlane_zero _).symm
  drawing h := by rcases h with h | h <;> cases h
  joined h := by cases h

theorem Shown.hdmi_mem {P : Planes} {s : State F β} (h : Shown P s) {b : UInt8} (hb : s.hdmiPlane = some b) :
    b = s.displayBuffer ∨ b = s.prevDisplayBuffer := by
  have e := eq_of_onPlane h.hdmi hb
  split at e
  · exact .inr e
  · exact .inl e

theorem Shown.composite_mem {P : Planes} {s : State F β} (h : Shown P s) {b : UInt8}
    (hb : s.compositePlane = some b) : b = s.displayBuffer ∨ b = s.prevDisplayBuffer := by
  have e := eq_of_onPlane h.composite hb
  split at e
  · exact .inr e
  · exact .inl e

/-- While the display thread runs and does not draw, both planes show `display_buffer`. -/
theorem Shown.settled {P : Planes} {s : State F β} (h : Shown P s) (h0 : s.display ≠ .drawHdmi)
    (h1 : s.display ≠ .drawComposite) (h2 : s.display ≠ .finished) :
    s.hdmiPlane = onPlane P.hdmi s.displayBuffer ∧ s.compositePlane = onPlane P.composite s.displayBuffer := by
  have hh := h.hdmi.resolve_right fun e => h2 e.1
  have hc := h.composite.resolve_right fun e => h2 e.1
  simp only [h0, h1, or_self, if_false] at hh hc
  exact ⟨hh, hc⟩

/-- A move of the display thread from one place outside the drawing to another. -/
theorem Shown.move {P : Planes} {s s' : State F β} (h : Shown P s) (h0 : s.display ≠ .drawHdmi)
    (h1 : s.display ≠ .drawComposite) (h2 : s.display ≠ .finished) (h0' : s'.display ≠ .drawHdmi)
    (h1' : s'.display ≠ .drawComposite) (hh : s'.hdmiPlane = s.hdmiPlane)
    (hc : s'.compositePlane = s.compositePlane) (hd : s'.displayBuffer = s.displayBuffer)
    (hm : s'.main = s.main) : Shown P s' := by
  obtain ⟨eh, ec⟩ := h.settled h0 h1 h2
  refine ⟨.inl ?_, .inl ?_, fun e => (e.elim h0' h1').elim, fun e => absurd (h.joined (hm ▸ e)) h2⟩
  · simp only [h0', if_false, hd, hh, eh]
  · simp only [h0', h1', or_self, if_false, hd, hc, ec]

theorem Shown.takeHead {P : Planes} {s : State F β} (h : Shown P s) (hd : s.display.resting = true)
    (h2 : s.display ≠ .finished) (hq : s.currentDisplayBuffer.s0 ≠ 0) : Shown P (takeHead s) := by
  -- The old `display_buffer` is on both planes, and becomes `prev_display_buffer`.
  have h0 : s.display ≠ .drawHdmi := fun e => by simp [e, DisplayPc.resting] at hd
  have h1 : s.display ≠ .drawComposite := fun e => by simp [e, DisplayPc.resting] at hd
  obtain ⟨eh, ec⟩ := h.settled h0 h1 h2
  exact ⟨.inl eh, .inl ec, fun _ => hq, fun e => absurd (h.joined e) h2⟩

theorem Shown.step {P : Planes} {s s' : State F β} {a : Act F β} (h : Shown P s) (hs : Trans P s a s') :
    Shown P s' := by
  cases hs with
  | take hd hq => exact h.takeHead (by simp [hd, DisplayPc.resting]) (by simp [hd]) hq
  | wakeTake hd hq => exact h.takeHead (by simp [hd, DisplayPc.resting]) (by simp [hd]) hq
  | showHdmi hd hp =>
    have h0 := h.drawing (.inl hd)
    refine ⟨.inl ?_, ?_, fun _ => h0, fun e => absurd (h.joined e) (by simp [hd])⟩
    · simp [Display.showHdmi, onPlane, hp, h0]
    · simpa [Display.showHdmi, hd] using h.composite
  | noHdmi hd hp =>
    have h0 := h.drawing (.inl hd)
    refine ⟨.inl ?_, ?_, fun _ => h0, fun e => absurd (h.joined e) (by simp [hd])⟩
    · simpa [hd, hp] using h.hdmi
    · simpa [hd] using h.composite
  | showComposite hd hp =>
    have h0 := h.drawing (.inr hd)
    refine ⟨?_, .inl ?_, fun e => ?_, fun e => absurd (h.joined e) (by simp [hd])⟩
    · simpa [Display.showComposite, hd] using h.hdmi
    · simp [Display.showComposite, onPlane, hp, h0]
    · simp [Display.showComposite] at e
  | noComposite hd hp =>
    refine ⟨?_, .inl ?_, fun e => by simp at e, fun e => absurd (h.joined e) (by simp [hd])⟩
    · simpa [hd] using h.hdmi
    · simpa [hd, hp] using h.composite
  | testOn hd | testOff hd | wait hd | wakeEmpty hd | drawn hd | pending hd | noPending hd | clearPending hd
  | giveBack hd | noGiveBack hd =>
    exact h.move (by simp [hd]) (by simp [hd]) (by simp [hd]) (by simp [returnPrev]) (by simp [returnPrev])
      rfl rfl rfl rfl
  | @apply b f hd =>
    have hn : b.next ≠ .drawHdmi ∧ b.next ≠ .drawComposite := by cases b <;> simp [Block.next]
    exact h.move (by simp [hd]) (by simp [hd]) (by simp [hd]) hn.1 hn.2 rfl rfl rfl rfl
  | put | signal =>
    have e0 := s.display.signal_eq_iff .drawHdmi (by simp)
    have e1 := s.display.signal_eq_iff .drawComposite (by simp)
    have e2 := s.display.signal_eq_iff .finished (by simp)
    refine ⟨?_, ?_, fun e => h.drawing ?_, fun e => ?_⟩
    · simpa [Display.putBuffer, e0, e2] using h.hdmi
    · simpa [Display.putBuffer, e0, e1, e2] using h.composite
    · simpa [Display.putBuffer, e0, e1] using e
    · first
      | exact e2.2 (h.joined e)
      | simp at e
  | tearDown hm => exact ⟨.inr ⟨h.joined hm, rfl⟩, .inr ⟨h.joined hm, rfl⟩, h.drawing, fun e => by simp at e⟩
  | join _ hd => exact ⟨h.hdmi, h.composite, h.drawing, fun _ => hd⟩
  | terminate | terminateNothing | clearInitialized | clearRun =>
    exact ⟨h.hdmi, h.composite, h.drawing, fun e => by simp at e⟩
  | _ => exact ⟨h.hdmi, h.composite, h.drawing, h.joined⟩

/-! ## The waiters -/

/-- An unsignalled waiter's queue is empty, and the decoder is signalled only
after a number was put in the queue it waits for. -/
structure Waits (s : State F β) : Prop where
  decoder : s.decoder = .waiting false → s.currentAvailableBuffer.s0 = 0
  woken : s.decoder = .waiting true → s.currentAvailableBuffer.s0 ≠ 0
  display : s.display = .waiting false → s.currentDisplayBuffer.s0 = 0

theorem waits_initDisplay (S : Session F β) : Waits (initDisplay S) :=
  ⟨fun h => (by cases h), fun h => (by cases h), fun h => (by cases h)⟩

theorem Waits.step {P : Planes} {s s' : State F β} {a : Act F β} (h : Waits s) (hs : Trans P s a s') :
    Waits s' := by
  cases hs with
  | getAvailable | wakeDecoder | getFail | endDecoder =>
    exact ⟨fun e => by simp [Display.dequeueAvailable] at e, fun e => by simp [Display.dequeueAvailable] at e,
      h.display⟩
  | getWait _ ha => exact ⟨fun _ => ha, fun e => by simp at e, h.display⟩
  | put =>
    exact ⟨fun e => by simp [Display.putBuffer] at e, fun e => by simp [Display.putBuffer] at e,
      fun e => absurd e s.display.signal_ne_waiting⟩
  | giveBack _ hp =>
    exact ⟨fun e => absurd e s.decoder.signal_ne_waiting, fun _ => put_s0_ne_zero hp,
      fun e => by simp [Display.returnPrev] at e⟩
  | wait _ hd => exact ⟨h.decoder, h.woken, fun _ => hd⟩
  | signal => exact ⟨h.decoder, h.woken, fun e => absurd e s.display.signal_ne_waiting⟩
  | @apply b =>
    exact ⟨h.decoder, h.woken, fun e => by cases b <;> simp [Block.next] at e⟩
  | take | wakeTake | wakeEmpty | testOn | testOff | showHdmi | noHdmi | showComposite | noComposite | drawn
  | pending | noPending | clearPending | noGiveBack =>
    exact ⟨h.decoder, h.woken,
      fun e => by simp [Display.takeHead, Display.showHdmi, Display.showComposite] at e⟩
  | _ => exact ⟨h.decoder, h.woken, h.display⟩

end Camview.Display
