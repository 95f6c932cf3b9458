/-
What the decoder and the display thread may rely on about the three buffers.

`buffer_tokens`: in every reachable state each buffer number is held in exactly
one place, no number is put on a full array, `get_buffer_number` never fails
for lack of both, and what is on a plane is not available. `decode_exclusive`:
the buffer `get_buffer` selects belongs to the decoder alone. Both need, in
full, that the decoder does not wake to an empty available queue, the first only
as long as the display queue is full (`WakesWithRoom`, `WakesToBuffer`):
`get_buffer_number` does not test the queue again after `pthread_cond_wait`, and
a spurious wake-up makes it return 0, which `get_buffer` reads as buffer 1.

`no_mutual_wait`: the two threads never wait for each other, with no such
condition.
-/
import Camview.DisplayTokens

namespace Camview.Display

open BufferT

variable {F β : Type} [DecidableEq β]

theorem reach_owned {S : Session F β} {s : State F β} (h : (machine S).Reach s) : Owned s :=
  h.invariant (fun _ hi => hi ▸ owned_initDisplay S) fun _ _ _ _ hi hs => hi.step (step_cases hs).2

theorem reach_shown {S : Session F β} {s : State F β} (h : (machine S).Reach s) : Shown S.planes s :=
  h.invariant (fun _ hi => hi ▸ shown_initDisplay S) fun _ _ _ _ hi hs => hi.step (step_cases hs).2

theorem reach_waits {S : Session F β} {s : State F β} (h : (machine S).Reach s) : Waits s :=
  h.invariant (fun _ hi => hi ▸ waits_initDisplay S) fun _ _ _ _ hi hs => hi.step (step_cases hs).2

/-- A session with both planes, its frames numbered. -/
def sample : Session Nat Nat where
  planes := ⟨true, true⟩
  width := 640
  height := 480
  blank := 0
  displayInitialized := false
  pendingControlsApply := false
  params := fun _ => 0
  sent := fun _ => none

/-- The decoder fills the display queue before the display thread runs, waits,
and is woken by nobody. -/
def spuriousWake : List (Act Nat Nat) :=
  [.get, .decode 7, .put, .get, .decode 8, .put, .get, .wakeDecoder]

/-- The decoder waits, the display thread gives buffer 1 back and signals it. -/
def wokenWithBuffer : List (Act Nat Nat) :=
  spuriousWake.take 7 ++ List.replicate 14 (.display false) ++ [.wakeDecoder]

/-- The display thread takes buffer 1, and the decoder gets buffer 2. -/
def firstFrame : List (Act Nat Nat) :=
  [.display false, .display false, .display false, .display false, .get, .decode 7]

/-! ## One holder each -/

section Owned

omit [DecidableEq β]

variable {s : State F β}

theorem Owned.count_eq (h : Owned s) (b : UInt8) :
    s.currentAvailableBuffer.queue.count b + s.currentDisplayBuffer.queue.count b +
      (token s.decoder.hand).count b + (token s.displayBuffer).count b + (token s.prevDisplayBuffer).count b =
    [1, 2, 3].count b := by
  simpa [State.tokens, List.count_append, Nat.add_assoc] using h.perm.count_eq b

theorem Owned.count_le (h : Owned s) (b : UInt8) :
    s.currentAvailableBuffer.queue.count b + s.currentDisplayBuffer.queue.count b +
      (token s.decoder.hand).count b + (token s.displayBuffer).count b + (token s.prevDisplayBuffer).count b ≤ 1 := by
  rw [h.count_eq b]
  exact List.nodup_iff_count.1 (by decide : ([1, 2, 3] : List UInt8).Nodup) b

theorem count_token_self {b : UInt8} (h : b ≠ 0) : (token b).count b = 1 := by simp [token_of_ne h]

/-- A number in the available queue is held by neither thread. -/
theorem Owned.not_available (h : Owned s) {b : UInt8}
    (hb : b = s.decoder.hand ∨ b = s.displayBuffer ∨ b = s.prevDisplayBuffer) :
    b ∉ s.currentAvailableBuffer.queue := by
  intro hm
  have h0 : b ≠ 0 := fun e => zero_not_mem_queue _ (e ▸ hm)
  have hc := h.count_le b
  have hq := List.count_pos_iff.2 hm
  have ht := count_token_self h0
  rcases hb with rfl | rfl | rfl <;> omega

/-- A number in the decoder's hand is nowhere else. -/
theorem Owned.hand_alone (h : Owned s) (h0 : s.decoder.hand ≠ 0) :
    s.decoder.hand ≠ s.displayBuffer ∧ s.decoder.hand ≠ s.prevDisplayBuffer ∧
      s.decoder.hand ∉ s.currentDisplayBuffer.queue := by
  have hc := h.count_le s.decoder.hand
  have ht := count_token_self h0
  refine ⟨fun e => ?_, fun e => ?_, fun hm => ?_⟩
  · rw [e] at hc ht
    omega
  · rw [e] at hc ht
    omega
  · have hq := List.count_pos_iff.2 hm
    omega

theorem token_length_le (b : UInt8) : (token b).length ≤ 1 := by
  unfold token
  split <;> simp

/-- With nothing in the decoder's hand, one of the queues has a buffer. -/
theorem Owned.some_queued (h : Owned s) (hd : s.decoder.hand = 0) :
    ¬ (s.currentAvailableBuffer.s0 = 0 ∧ s.currentDisplayBuffer.s0 = 0) := by
  intro ⟨ha, hb⟩
  have hl := h.length
  rw [(queue_eq_nil h.available).2 ha, (queue_eq_nil h.display).2 hb, hd] at hl
  have h1 := token_length_le s.displayBuffer
  have h2 := token_length_le s.prevDisplayBuffer
  simp only [List.length_nil, token_zero] at hl
  omega

/-- The numbers in the decoder's hand are buffers, and `get_buffer` selects just them. -/
theorem Owned.output_hand (h : Owned s) (h0 : s.decoder.hand ≠ 0) : outputBuffer s.decoder.hand = s.decoder.hand := by
  have hm : s.decoder.hand ∈ s.tokens := by simp [State.tokens, mem_token, h0]
  have hm' := h.perm.subset hm
  simp only [List.mem_cons, List.not_mem_nil, or_false] at hm'
  rcases hm' with e | e | e <;> rw [e] <;> rfl

end Owned

/-! ## Conservation -/

/-- What holds of the buffer numbers in every state: each of 1, 2, 3 is in one
place, once; both arrays are packed; a number is never put on a full array; with
an empty hand the decoder finds a buffer in one of the queues; and what was last
set on a plane is not available. -/
structure Conserved (s : State F β) : Prop where
  once : ∀ b ∈ [1, 2, 3], s.tokens.count b = 1
  available : s.currentAvailableBuffer.Packed
  display : s.currentDisplayBuffer.Packed
  putRoom : ∀ b, s.decoder = .holding b → b ≠ 0 → ¬ s.currentDisplayBuffer.Full
  returnRoom : s.display = .giveBack → s.prevDisplayBuffer ≠ 0 → ¬ s.currentAvailableBuffer.Full
  dequeues : s.decoder = .idle → ¬ (s.currentAvailableBuffer.s0 = 0 ∧ s.currentDisplayBuffer.s0 = 0)
  planes : ∀ b, s.hdmiPlane = some b ∨ s.compositePlane = some b → b ∉ s.currentAvailableBuffer.queue

/-- `Conserved`, and `put_buffer` never meets a full array, whatever it is given. -/
def BufferTokens (s : State F β) : Prop :=
  Conserved s ∧ ∀ b, s.decoder = .holding b → ¬ s.currentDisplayBuffer.Full

/-- The decoder's `pthread_cond_wait` does not return while all three numbers are
in the display queue. -/
def WakesWithRoom (s : State F β) : Act F β → Prop
  | .wakeDecoder => ¬ s.currentDisplayBuffer.Full
  | _ => True

/-- The decoder's `pthread_cond_wait` returns to a non-empty available queue. -/
def WakesToBuffer (s : State F β) : Act F β → Prop
  | .wakeDecoder => s.currentAvailableBuffer.s0 ≠ 0
  | _ => True

omit [DecidableEq β] in
instance (s : State F β) : (a : Act F β) → Decidable (WakesWithRoom s a)
  | .wakeDecoder => inferInstanceAs (Decidable (¬ _))
  | .get | .decode _ | .put | .endDecoder | .display _ | .wakeDisplay | .setDrm _ _ | .setDrmNext | .main =>
    isTrue trivial

omit [DecidableEq β] in
instance (s : State F β) : (a : Act F β) → Decidable (WakesToBuffer s a)
  | .wakeDecoder => inferInstanceAs (Decidable (_ ≠ _))
  | .get | .decode _ | .put | .endDecoder | .display _ | .wakeDisplay | .setDrm _ _ | .setDrmNext | .main =>
    isTrue trivial

theorem reach_conserved {S : Session F β} {s : State F β} (h : (machine S).Reach s) : Conserved s := by
  have ho := reach_owned h
  have hp := reach_shown h
  refine ⟨fun b hb => ?_, ho.available, ho.display, fun b hb h0 => ?_, fun _ h0 => ho.availableRoom h0,
    fun hd => ho.some_queued (by simp [hd]), fun b hb => ho.not_available ?_⟩
  · rw [ho.perm.count_eq b]
    simp only [List.mem_cons, List.not_mem_nil, or_false] at hb
    rcases hb with rfl | rfl | rfl <;> rfl
  · exact ho.displayRoom (by rwa [hb])
  · rcases hb with hb | hb
    · exact .inr (hp.hdmi_mem hb)
    · exact .inr (hp.composite_mem hb)

/-- The display queue has room for what the decoder holds, a number or 0: while
it is held, nothing else is put there. -/
theorem via_room {S : Session F β} {s : State F β} (h : (machine S).Via WakesWithRoom s) :
    ∀ b, s.decoder = .holding b → ¬ s.currentDisplayBuffer.Full := by
  refine h.invariant (I := fun s => ∀ b, s.decoder = .holding b → ¬ s.currentDisplayBuffer.Full) ?_ ?_
  · intro s hi b hb
    rw [show s = initDisplay S from hi] at hb
    cases hb
  · intro s a s' hv ih hc hs b hb
    by_cases h0 : b = 0
    · subst h0
      obtain ⟨-, ht⟩ := step_cases hs
      cases ht with
      | getAvailable _ ha => exact absurd (DecoderPc.holding.inj hb) ha
      | getFail _ _ hq => exact fun hf => hf.1 hq
      | wakeDecoder => exact hc
      | getWait | put | endDecoder => cases hb
      | take | wakeTake => exact fun hf => hf.2.2 rfl
      | giveBack =>
        have hb' : s.decoder.signal = .holding 0 := hb
        exact ih 0 ((s.decoder.signal_eq_iff (.holding 0) (by simp)).1 hb')
      | _ => exact ih 0 hb
    · have hroom := (reach_owned (hv.reach.next hs)).displayRoom
      rw [hb] at hroom
      exact hroom h0

/-- Woken only to a buffer, the decoder never holds the number 0. -/
theorem via_holding_ne_zero {S : Session F β} {s : State F β} (h : (machine S).Via WakesToBuffer s) :
    ∀ b, s.decoder = .holding b → b ≠ 0 := by
  refine h.invariant (I := fun s => ∀ b, s.decoder = .holding b → b ≠ 0) ?_ ?_
  · intro s hi b hb
    rw [show s = initDisplay S from hi] at hb
    cases hb
  · intro s a s' hv ih hc hs b hb
    obtain ⟨-, ht⟩ := step_cases hs
    cases ht with
    | getAvailable _ ha => cases hb; exact ha
    | getFail hd ha hq => exact absurd ⟨ha, hq⟩ ((reach_owned hv.reach).some_queued (by simp [hd]))
    | wakeDecoder => cases hb; exact hc
    | getWait | put | endDecoder => cases hb
    | giveBack =>
      have hb' : s.decoder.signal = .holding b := hb
      exact ih b ((s.decoder.signal_eq_iff (.holding b) (by simp)).1 hb')
    | _ => exact ih b hb

/-- **Conservation of the buffers.** Every reachable state conserves the buffer
numbers. In runs whose decoder does not wake to a full display queue `put_buffer`
moreover never meets a full array, not even with the answer 0; a wake-up to a
full queue ends at once in a state where it will. -/
theorem buffer_tokens (S : Session F β) :
    (∀ s, (machine S).Reach s → Conserved s) ∧ (∀ s, (machine S).Via WakesWithRoom s → BufferTokens s) ∧
    ∀ s a s', (machine S).Reach s → (machine S).step s a = some s' → ¬ WakesWithRoom s a → ¬ BufferTokens s' := by
  refine ⟨fun s h => reach_conserved h, fun s h => ⟨reach_conserved h.reach, via_room h⟩, fun s a s' _ hs hw ht => ?_⟩
  obtain ⟨-, hstep⟩ := step_cases hs
  cases hstep with
  | wakeDecoder => exact hw (ht.2 _ rfl)
  | _ => exact hw trivial

/-- After a spurious wake-up the decoder puts 0 on the full array `[1, 2, 3]`. -/
theorem not_buffer_tokens : ¬ ∀ s, (machine sample).Reach s → BufferTokens s := by
  intro h
  obtain ⟨s, hs, hp⟩ := Machine.reach_of_exec (M := machine sample) spuriousWake
    (fun s => s.decoder = .holding 0 ∧ s.currentDisplayBuffer.Full) rfl (by decide)
  simp only [decide_eq_true_eq] at hp
  exact (h s hs).2 0 hp.1 hp.2

theorem buffer_tokens_sample :
    (∃ s, (machine sample).exec (initDisplay sample) firstFrame = some s ∧ Conserved s) ∧
    (∃ s, (machine sample).execIf WakesWithRoom (initDisplay sample) wokenWithBuffer = some s ∧
      s.decoder = .holding 1 ∧ BufferTokens s) ∧
      ∃ s s', (machine sample).exec (initDisplay sample) (spuriousWake.take 7) = some s ∧
        (machine sample).step s .wakeDecoder = some s' ∧ ¬ BufferTokens s' := by
  refine ⟨?_, ?_, ?_⟩
  · obtain ⟨s, hs⟩ : ∃ s, (machine sample).exec (initDisplay sample) firstFrame = some s :=
      Option.isSome_iff_exists.1 (by decide)
    exact ⟨s, hs, (buffer_tokens sample).1 s ((Machine.Reach.start rfl).exec hs)⟩
  · obtain ⟨s, hs, hd⟩ : ∃ s, (machine sample).execIf WakesWithRoom (initDisplay sample) wokenWithBuffer = some s ∧
        s.decoder = .holding 1 := ⟨_, rfl, rfl⟩
    exact ⟨s, hs, hd, (buffer_tokens sample).2.1 s (.execIf (.start rfl) hs)⟩
  · obtain ⟨s, hs, s', hs', hw⟩ : ∃ s, (machine sample).exec (initDisplay sample) (spuriousWake.take 7) = some s ∧
        ∃ s', (machine sample).step s .wakeDecoder = some s' ∧ s.currentDisplayBuffer.Full :=
      ⟨_, rfl, _, rfl, by decide⟩
    have hr : (machine sample).Reach s := (Machine.Reach.start rfl).exec hs
    exact ⟨s, s', hs, hs', (buffer_tokens sample).2.2 s _ s' hr hs' (not_not.2 hw)⟩

/-! ## The decoder's target -/

/-- The buffer selected for decoding is neither on screen nor in a queue. -/
def Exclusive (s : State F β) : Prop :=
  ∀ b, s.decoder = .holding b →
    outputBuffer b ≠ s.displayBuffer ∧ outputBuffer b ≠ s.prevDisplayBuffer ∧
    outputBuffer b ∉ s.currentDisplayBuffer.queue ∧ outputBuffer b ∉ s.currentAvailableBuffer.queue

omit [DecidableEq β] in
theorem Owned.exclusive {s : State F β} (h : Owned s) (h0 : ∀ b, s.decoder = .holding b → b ≠ 0) : Exclusive s := by
  intro b hb
  have hh : s.decoder.hand = b := by rw [hb]; rfl
  have h0' : s.decoder.hand ≠ 0 := hh ▸ h0 b hb
  have ho := h.output_hand h0'
  obtain ⟨h1, h2, h3⟩ := h.hand_alone h0'
  have h4 := h.not_available (.inl rfl)
  rw [hh] at ho h1 h2 h3 h4
  rw [ho]
  exact ⟨h1, h2, h3, h4⟩

omit [DecidableEq β] in
/-- Holding 0, the decoder writes to buffer 1, which another place holds. -/
theorem Owned.not_exclusive {s : State F β} (h : Owned s) (hd : s.decoder = .holding 0) : ¬ Exclusive s := by
  intro he
  obtain ⟨h1, h2, h3, h4⟩ := he 0 hd
  have hm : (1 : UInt8) ∈ s.tokens := h.perm.symm.subset (by decide)
  simp only [State.tokens, hd, DecoderPc.hand_holding, token_zero, List.append_nil, List.mem_append, mem_token] at hm
  rcases hm with ((hm | hm) | hm) | hm
  · exact h4 hm
  · exact h3 hm
  · exact h1 hm.2
  · exact h2 hm.2

/-- **Exclusive decode target.** In every run whose decoder wakes only to a
buffer, the buffer selected for decoding belongs to the decoder alone from
`get_buffer` to `put_buffer`; a wake-up to an empty queue ends at once in a
state where it does not. -/
theorem decode_exclusive (S : Session F β) :
    (∀ s, (machine S).Via WakesToBuffer s → Exclusive s) ∧
    ∀ s a s', (machine S).Reach s → (machine S).step s a = some s' → ¬ WakesToBuffer s a → ¬ Exclusive s' := by
  refine ⟨fun s h => (reach_owned h.reach).exclusive (via_holding_ne_zero h), fun s a s' h hs hw => ?_⟩
  have ho := reach_owned (h.next hs)
  obtain ⟨-, ht⟩ := step_cases hs
  cases ht with
  | wakeDecoder =>
    have ha : s.currentAvailableBuffer.s0 = 0 := by simpa [WakesToBuffer] using hw
    exact ho.not_exclusive (by rw [← ha]; rfl)
  | _ => simp [WakesToBuffer] at hw

/-- After a spurious wake-up the decoder writes to buffer 1 while it is queued. -/
theorem not_decode_exclusive : ¬ ∀ s, (machine sample).Reach s → Exclusive s := by
  intro h
  obtain ⟨s, hs, hp⟩ := Machine.reach_of_exec (M := machine sample) spuriousWake
    (fun s => s.decoder = .holding 0) rfl (by decide)
  exact (reach_owned hs).not_exclusive (by simpa using hp) (h s hs)

theorem decode_exclusive_sample :
    (∃ s, (machine sample).execIf WakesToBuffer (initDisplay sample) wokenWithBuffer = some s ∧
      s.decoder = .holding 1 ∧ Exclusive s) ∧
      ∃ s s', (machine sample).exec (initDisplay sample) (spuriousWake.take 7) = some s ∧
        (machine sample).step s .wakeDecoder = some s' ∧ ¬ Exclusive s' := by
  constructor
  · obtain ⟨s, hs, hd⟩ : ∃ s, (machine sample).execIf WakesToBuffer (initDisplay sample) wokenWithBuffer = some s ∧
        s.decoder = .holding 1 := ⟨_, rfl, rfl⟩
    exact ⟨s, hs, hd, (decode_exclusive sample).1 s (.execIf (.start rfl) hs)⟩
  obtain ⟨s, hs, s', hs', hw⟩ : ∃ s, (machine sample).exec (initDisplay sample) (spuriousWake.take 7) = some s ∧
      ∃ s', (machine sample).step s .wakeDecoder = some s' ∧ ¬ WakesToBuffer s .wakeDecoder :=
    ⟨_, rfl, _, rfl, by simp [WakesToBuffer]; decide⟩
  exact ⟨s, s', hs, hs', (decode_exclusive sample).2 s _ s' ((Machine.Reach.start rfl).exec hs) hs' hw⟩

/-! ## No mutual wait -/

/-- **No mutual deadlock.** No reachable state has the decoder waiting unsignalled
for an available buffer and the display thread waiting unsignalled for one to
display. -/
theorem no_mutual_wait (S : Session F β) {s : State F β} (h : (machine S).Reach s) :
    ¬ (s.decoder = .waiting false ∧ s.display = .waiting false) := by
  intro ⟨hd, hp⟩
  have hw := reach_waits h
  exact (reach_owned h).some_queued (by simp [hd]) ⟨hw.decoder hd, hw.display hp⟩

theorem no_mutual_wait_sample :
    ∃ s, (machine sample).exec (initDisplay sample) (spuriousWake.take 7) = some s ∧
      s.decoder = .waiting false ∧ ¬ (s.decoder = .waiting false ∧ s.display = .waiting false) := by
  obtain ⟨s, hs, hd⟩ : ∃ s, (machine sample).exec (initDisplay sample) (spuriousWake.take 7) = some s ∧
      s.decoder = .waiting false := ⟨_, rfl, rfl⟩
  exact ⟨s, hs, hd, no_mutual_wait sample ((Machine.Reach.start rfl).exec hs)⟩

end Camview.Display
