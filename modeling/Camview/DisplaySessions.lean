/-
The threads of `display.c` over any number of sessions. `display_initialized`,
`pending_controls_apply`, the parameter blocks and what the driver was sent last
stay from one session to the next; the control thread may change a block before
`init_display` of its session has created the display thread, and then
`display_initialized` is what decides between sending it at once and deferring it.

Between sessions the state is that of a session whose `terminate_display` has
returned: no thread but the control thread has a step.
-/
import Camview.DisplayTokens

namespace Camview.Display

variable {F β : Type}

/-- Between the test of `display_initialized` and the ioctl. -/
def ControlPc.isSending : ControlPc → Bool
  | .sending _ => true
  | _ => false

/-! ## Sent or on its way -/

/-- In the block under `if (pending_controls_apply)`, or about to test it. -/
def DisplayPc.applying : DisplayPc → Bool
  | .testPending | .apply _ | .clearPending => true
  | _ => false

/-- Past the ioctl of block `b` there. -/
def DisplayPc.past : DisplayPc → Block → Bool
  | .apply .bws, .fcc | .apply .lti, .fcc | .apply .lti, .bws | .clearPending, _ => true
  | _, _ => false

/-- The driver has the block as it is, or a thread is about to send it, or the
display thread will because the control thread has asked or will ask it to. -/
def Known (s : State F β) (b : Block) : Prop :=
  s.sent b = some (s.params b) ∨ s.control = .stored b ∨ s.control = .sending b ∨
    (s.control = .deferring ∨ s.pendingControlsApply = true) ∧ s.display.past b = false

/-- What holds of the blocks in `changed` at any time of a session. -/
structure NotLost (changed : Block → Bool) (s : State F β) : Prop where
  size : s.main = .running → ¬ (s.srcWidth = 0 ∧ s.srcHeight = 0)
  initialized : s.main = .running → s.display.applying = true → s.displayInitialized = true
  finished : s.main = .tearDown ∨ s.main = .returned → s.display = .finished
  control : s.control ≠ .idle → s.main = .running ∨ s.main = .returned
  known : ∀ b, changed b = true → Known s b

/-- The control thread has finished before `terminate_display` starts. -/
def ControlFinished (s : State F β) : Act F β → Prop
  | .setDrm _ _ | .setDrmNext => s.main = .running ∨ s.main = .returned
  | .main => s.main = .running → s.control = .idle
  | _ => True

instance (s : State F β) : (a : Act F β) → Decidable (ControlFinished s a)
  | .setDrm _ _ | .setDrmNext => inferInstanceAs (Decidable (_ ∨ _))
  | .main => inferInstanceAs (Decidable (_ → _))
  | .get | .wakeDecoder | .decode _ | .put | .endDecoder | .display _ | .wakeDisplay => isTrue trivial

theorem DisplayPc.past_of_applying {pc : DisplayPc} (h : pc.applying = false) (b : Block) : pc.past b = false := by
  cases pc <;> first | rfl | cases h

theorem DisplayPc.signal_past (pc : DisplayPc) (b : Block) : pc.signal.past b = pc.past b := by
  cases pc <;> rfl

theorem DisplayPc.signal_applying (pc : DisplayPc) : pc.signal.applying = pc.applying := by
  cases pc <;> rfl

theorem DisplayPc.signal_finished {pc : DisplayPc} (h : pc = .finished) : pc.signal = .finished := by
  rw [h]
  rfl

section Step

variable {P : Planes} {changed : Block → Bool} {s s' : State F β} {a : Act F β} {b : Block}

/-- What is known of a block stays known while the display thread does not get
past it. -/
theorem Known.congr (h : Known s b) (hp : s'.params = s.params) (hs : s'.sent = s.sent) (hc : s'.control = s.control)
    (hq : s'.pendingControlsApply = s.pendingControlsApply)
    (hd : s.display.past b = false → s'.display.past b = false) : Known s' b := by
  unfold Known
  rw [hp, hs, hc, hq]
  exact h.imp_right (.imp_right (.imp_right (.imp_right hd)))

/-- A step of the display thread. -/
theorem NotLost.displays (h : NotLost changed s) (hf : s.display ≠ .finished) (hm : s'.main = s.main)
    (hw : s'.srcWidth = s.srcWidth) (hh : s'.srcHeight = s.srcHeight) (hc : s'.control = s.control)
    (hi : s'.main = .running → s'.display.applying = true → s'.displayInitialized = true)
    (hk : ∀ b, Known s b → Known s' b) : NotLost changed s' where
  size := by rw [hm, hw, hh]; exact h.size
  initialized := hi
  finished := fun hmain => absurd (h.finished (hm ▸ hmain)) hf
  control := by rw [hc, hm]; exact h.control
  known := fun b hb => hk b (h.known b hb)

/-- One away from `pending_controls_apply`. -/
theorem NotLost.moves (h : NotLost changed s) (hf : s.display ≠ .finished) (ha : s'.display.applying = false)
    (hp : s'.params = s.params) (hs : s'.sent = s.sent) (hc : s'.control = s.control)
    (hq : s'.pendingControlsApply = s.pendingControlsApply) (hm : s'.main = s.main)
    (hw : s'.srcWidth = s.srcWidth) (hh : s'.srcHeight = s.srcHeight) : NotLost changed s' :=
  h.displays hf hm hw hh hc (fun _ hap => absurd (ha.symm.trans hap) Bool.noConfusion) fun b hb =>
    hb.congr hp hs hc hq fun _ => DisplayPc.past_of_applying ha b

/-- A step of main past the end of the capture. -/
theorem NotLost.main (h : NotLost changed s) (hr : s'.main ≠ .running) (hp : s'.params = s.params)
    (hs : s'.sent = s.sent) (hc : s'.control = s.control) (hq : s'.pendingControlsApply = s.pendingControlsApply)
    (hd : ∀ b, s'.display.past b = s.display.past b)
    (hf : s'.main = .tearDown ∨ s'.main = .returned → s'.display = .finished)
    (hctl : s.control ≠ .idle → s'.main = .running ∨ s'.main = .returned) : NotLost changed s' where
  size := fun e => absurd e hr
  initialized := fun e => absurd e hr
  finished := hf
  control := by rw [hc]; exact hctl
  known := fun b hb => (h.known b hb).congr hp hs hc hq fun e => (hd b).trans e

/-- A block just sent is known, the others are if they would be without it. -/
theorem Known.of_sent {block : Block} (hs : s'.sent = (sendBlock block s).sent) (hp : s'.params = s.params)
    (h : b ≠ block → Known { s' with sent := s.sent } b) : Known s' b := by
  by_cases hb : b = block
  · refine .inl ?_
    rw [hs, hp, hb, sendBlock]
    exact if_pos rfl
  · refine (h hb).imp_left fun e => ?_
    rw [hs, sendBlock]
    exact (if_neg hb).trans e

/-- The apply block sends one block and goes past it. -/
theorem Known.apply {block : Block} (h : Known s b) (hd : s.display = .apply block) :
    Known { sendBlock block s with display := block.next } b := by
  refine .of_sent rfl rfl fun hb => h.imp_right (.imp_right (.imp_right (.imp_right fun hp => ?_)))
  rw [hd] at hp
  cases block <;> cases b <;> first | rfl | exact absurd rfl hb | cases hp

/-- At its end all blocks have been sent. -/
theorem Known.clearPending (h : Known s b) (hd : s.display = .clearPending) :
    Known { s with pendingControlsApply := false, display := .giveBack } b := by
  unfold Known
  rw [Known, hd] at h
  exact h.imp_right (.imp_right (.imp_right fun hp => absurd hp.2 Bool.noConfusion))

/-- A block just stored is on its way, the others are where they were. -/
theorem Known.setDrm {block : Block} {value : β} (h : b ≠ block → Known s b) (hi : s.control = .idle) :
    Known { s with params := fun b => if b = block then value else s.params b, control := .stored block } b := by
  unfold Known
  dsimp only
  by_cases hb : b = block
  · exact .inr (.inl (by rw [hb]))
  · rw [if_neg hb]
    have hk := h hb
    simp only [Known, hi, reduceCtorEq, false_or] at hk
    exact hk.imp_right fun hp => .inr (.inr ⟨.inr hp.1, hp.2⟩)

/-- A block is deferred only while the display thread is not in its apply block. -/
theorem Known.setDrmTest {block : Block} (h : Known s b) (hc : s.control = .stored block)
    (ha : s.displayInitialized = false → s.display.applying = false) :
    Known { s with control := if s.displayInitialized then .sending block else .deferring } b := by
  unfold Known at h ⊢
  dsimp only
  simp only [hc, ControlPc.stored.injEq, reduceCtorEq, false_or] at h
  cases hi : s.displayInitialized with
  | true =>
    simp only [if_true, reduceCtorEq, ControlPc.sending.injEq, false_or]
    exact h.imp_right id
  | false =>
    simp only [Bool.false_eq_true, if_false, reduceCtorEq, false_or, true_or, true_and]
    exact .inr (DisplayPc.past_of_applying (ha hi) b)

theorem Known.setDrmSend {block : Block} (h : Known s b) (hc : s.control = .sending block) :
    Known { sendBlock block s with control := .idle } b := by
  refine .of_sent rfl rfl fun hb => ?_
  simp only [Known, hc, reduceCtorEq, ControlPc.sending.injEq, false_or] at h
  rcases h with h | h | h
  · exact .inl h
  · exact absurd h.symm hb
  · exact .inr (.inr (.inr ⟨.inr h.1, h.2⟩))

theorem Known.setDrmDefer (h : Known s b) (hc : s.control = .deferring) :
    Known { s with pendingControlsApply := true, control := .idle } b := by
  simp only [Known, hc, reduceCtorEq, false_or, true_or, true_and] at h
  exact h.imp_right fun hp => .inr (.inr ⟨.inr rfl, hp⟩)

variable [DecidableEq β]

theorem NotLost.step (h : NotLost changed s) (hc : ControlFinished s a) (hs : Trans P s a s') :
    NotLost (fun b => changed b || s'.params b != s.params b) s' := by
  have keep (hp : s'.params = s.params) (hn : NotLost changed s') :
      NotLost (fun b => changed b || s'.params b != s.params b) s' := by
    simpa only [hp, bne_self_eq_false, Bool.or_false] using hn
  cases hs with
  | testOn hd | testOff hd | wait hd | take hd | wakeTake hd | wakeEmpty hd | showHdmi hd | noHdmi hd
  | showComposite hd | noComposite hd | noPending hd | giveBack hd | noGiveBack hd =>
    exact keep rfl (h.moves (by simp [hd]) rfl rfl rfl rfl rfl rfl rfl rfl)
  | drawn hd =>
    exact keep rfl (h.displays (by simp [hd]) rfl rfl rfl rfl (fun _ _ => rfl)
      fun b hb => hb.congr rfl rfl rfl rfl fun _ => rfl)
  | pending hd hp =>
    exact keep rfl (h.displays (by simp [hd]) rfl rfl rfl rfl (fun hm _ => h.initialized hm (by rw [hd]; rfl))
      fun b hb => hb.congr rfl rfl rfl rfl fun _ => by cases b <;> rfl)
  | apply hd =>
    exact keep rfl (h.displays (by simp [hd]) rfl rfl rfl rfl (fun hm _ => h.initialized hm (by rw [hd]; rfl))
      fun b hb => hb.apply hd)
  | clearPending hd =>
    exact keep rfl (h.displays (by simp [hd]) rfl rfl rfl rfl (fun _ ha => absurd ha Bool.noConfusion)
      fun b hb => hb.clearPending hd)
  | put hd =>
    refine keep rfl { h with initialized := fun hm ha => ?_, finished := fun hm => ?_, known := fun b hb => ?_ }
    · exact h.initialized hm (by rwa [← DisplayPc.signal_applying])
    · exact DisplayPc.signal_finished (h.finished hm)
    · exact (h.known b hb).congr rfl rfl rfl rfl fun hp => by rw [← hp]; exact DisplayPc.signal_past ..
  | setDrm hi hv =>
    refine { h with control := fun _ => hc, known := fun b hb => Known.setDrm (fun hne => h.known b ?_) hi }
    simpa [hne] using hb
  | setDrmTest hi =>
    have hrun : s.main = .running ∨ s.main = .returned := hc
    refine keep rfl { h with control := fun _ => hc, known := fun b hb => (h.known b hb).setDrmTest hi fun hf => ?_ }
    rcases hrun with hm | hm
    · cases ha : s.display.applying with
      | false => rfl
      | true => exact absurd ((h.initialized hm ha).symm.trans hf) Bool.noConfusion
    · rw [h.finished (.inr hm)]
      rfl
  | setDrmSend hi =>
    exact keep rfl { h with
      control := fun hn => absurd rfl hn
      known := fun b hb => (h.known b hb).setDrmSend hi }
  | setDrmDefer hi =>
    exact keep rfl { h with
      control := fun hn => absurd rfl hn
      known := fun b hb => (h.known b hb).setDrmDefer hi }
  | terminate hm =>
    exact keep rfl (h.main (by simp) rfl rfl rfl rfl (fun _ => rfl) (fun e => by simp at e)
      fun e => absurd (hc hm) e)
  | terminateNothing hm _ hz => exact absurd hz (h.size hm)
  | clearInitialized hm | clearRun hm =>
    exact keep rfl (h.main (by simp) rfl rfl rfl rfl (fun _ => rfl) (fun e => by simp at e)
      fun e => absurd (h.control e) (by simp [hm]))
  | signal hm =>
    exact keep rfl (h.main (by simp) rfl rfl rfl rfl (DisplayPc.signal_past _) (fun e => by simp at e)
      fun e => absurd (h.control e) (by simp [hm]))
  | join hm hd =>
    exact keep rfl (h.main (by simp) rfl rfl rfl rfl (fun _ => rfl) (fun _ => hd)
      fun e => absurd (h.control e) (by simp [hm]))
  | tearDown hm =>
    exact keep rfl (h.main (by simp) rfl rfl rfl rfl (fun _ => rfl) (fun _ => h.finished (.inl hm))
      fun _ => .inr rfl)
  | _ => exact keep rfl ⟨h.size, h.initialized, h.finished, h.control, h.known⟩

end Step

/-! ## Deferred or shown -/

/-- What holds of a session whose display thread has set a frame on the planes
(`shown`) or not, while no step clears the flag too early. -/
structure Held (shown : Bool) (s : State F β) : Prop where
  size : s.main = .running → ¬ (s.srcWidth = 0 ∧ s.srcHeight = 0)
  initialized : s.displayInitialized = true → (s.main = .running ∨ s.main = .clearInitialized) ∧ shown = true
  drawn : s.display = .drawn → shown = true
  sending : s.control.isSending = true → shown = true
  finished : s.main = .tearDown ∨ s.main = .returned → s.display = .finished

/-- The display thread does not set `display_initialized` after main has cleared it. -/
def NotAfterClear (s : State F β) : Act F β → Prop
  | .display _ => s.display = .drawn → s.main = .running ∨ s.main = .clearInitialized
  | _ => True

instance (s : State F β) : (a : Act F β) → Decidable (NotAfterClear s a)
  | .display _ => inferInstanceAs (Decidable (_ → _))
  | .get | .wakeDecoder | .decode _ | .put | .endDecoder | .wakeDisplay | .setDrm _ _ | .setDrmNext | .main =>
    isTrue trivial

section Step

variable {P : Planes} {shown : Bool} {s s' : State F β} {a : Act F β}

/-- A step that leaves the flag and main alone. -/
theorem Held.congr (h : Held shown s) {shown' : Bool} (hsh : shown = true → shown' = true)
    (hi : s'.displayInitialized = s.displayInitialized) (hm : s'.main = s.main)
    (hw : s'.srcWidth = s.srcWidth) (hh : s'.srcHeight = s.srcHeight)
    (hd : s'.display = .drawn → s.display = .drawn ∨ shown' = true)
    (hc : s'.control.isSending = true → s.control.isSending = true ∨ shown' = true)
    (hf : s.display = .finished → s'.display = .finished) : Held shown' s' where
  size := by rw [hm, hw, hh]; exact h.size
  initialized := fun e => by
    rw [hi] at e
    rw [hm]
    exact (h.initialized e).imp_right hsh
  drawn := fun e => (hd e).elim (fun hdr => hsh (h.drawn hdr)) id
  sending := fun e => (hc e).elim (fun hs => hsh (h.sending hs)) id
  finished := fun e => hf (h.finished (hm ▸ e))

/-- A step of main past the end of the capture. -/
theorem Held.main (h : Held shown s) {shown' : Bool} (hsh : shown = true → shown' = true) (hr : s'.main ≠ .running)
    (hi : s'.displayInitialized = true → s.displayInitialized = true ∧ s'.main = .clearInitialized)
    (hd : s'.display = .drawn → s.display = .drawn) (hc : s'.control = s.control)
    (hf : s'.main = .tearDown ∨ s'.main = .returned → s'.display = .finished) : Held shown' s' where
  size := fun e => absurd e hr
  initialized := fun e => ⟨.inr (hi e).2, hsh (h.initialized (hi e).1).2⟩
  drawn := fun e => hsh (h.drawn (hd e))
  sending := fun e => hsh (h.sending (hc ▸ e))
  finished := hf

/-- The flag is down once main has cleared it. -/
theorem Held.cleared (h : Held shown s) (hm : s.main ≠ .running) (hm' : s.main ≠ .clearInitialized) :
    s.displayInitialized = false := by
  cases hi : s.displayInitialized with
  | false => rfl
  | true => exact absurd (h.initialized hi).1 (by simp [hm, hm'])

theorem Held.returned (h : Held shown s) (hm : s.main = .returned) : s.displayInitialized = false :=
  h.cleared (by simp [hm]) (by simp [hm])

theorem Block.next_ne_drawn (block : Block) : block.next ≠ .drawn := by
  cases block <;> exact DisplayPc.noConfusion

theorem Held.step (h : Held shown s) (hc : NotAfterClear s a) (hs : Trans P s a s') :
    Held (shown || s'.display == .drawn) s' := by
  have hsh : shown = true → (shown || s'.display == .drawn) = true := fun e => by simp [e]
  cases hs with
  | testOn hd | testOff hd | wait hd | take hd | wakeTake hd | wakeEmpty hd | showHdmi hd | noHdmi hd
  | noPending hd | giveBack hd | noGiveBack hd | pending hd | clearPending hd =>
    exact h.congr hsh rfl rfl rfl rfl (fun e => by cases e) .inl (fun e => by simp [hd] at e)
  | apply hd =>
    exact h.congr hsh rfl rfl rfl rfl (fun e => absurd e (Block.next_ne_drawn _)) .inl
      (fun e => by simp [hd] at e)
  | showComposite hd | noComposite hd =>
    exact h.congr hsh rfl rfl rfl rfl (fun _ => .inr (by simp [Display.showComposite])) .inl
      (fun e => by simp [hd] at e)
  | drawn hd =>
    have hshown := h.drawn hd
    exact
      { size := h.size
        initialized := fun _ => ⟨hc hd, hsh hshown⟩
        drawn := fun e => by cases e
        sending := fun _ => hsh hshown
        finished := fun hm => absurd ((h.finished hm).symm.trans hd) (by simp) }
  | put hd =>
    refine h.congr hsh rfl rfl rfl rfl (fun e => .inl ?_) .inl DisplayPc.signal_finished
    exact (s.display.signal_eq_iff .drawn (by simp)).1 e
  | setDrm hi hv => exact h.congr hsh rfl rfl rfl rfl .inl (fun e => by cases e) id
  | setDrmSend hi | setDrmDefer hi => exact h.congr hsh rfl rfl rfl rfl .inl (fun e => by cases e) id
  | setDrmTest hi =>
    refine h.congr hsh rfl rfl rfl rfl .inl (fun e => .inr ?_) id
    cases hf : s.displayInitialized with
    | true => exact hsh (h.initialized hf).2
    | false => simp [hf, ControlPc.isSending] at e
  | terminate hm => exact h.main hsh (by simp) (fun e => ⟨e, rfl⟩) id rfl (fun e => by simp at e)
  | terminateNothing hm _ hz => exact absurd hz (h.size hm)
  | clearInitialized hm => exact h.main hsh (by simp) (fun e => by cases e) id rfl (fun e => by simp at e)
  | clearRun hm =>
    have hi := h.cleared (by simp [hm]) (by simp [hm])
    exact h.main hsh (by simp) (fun e => by simp [hi] at e) id rfl (fun e => by simp at e)
  | signal hm =>
    have hi := h.cleared (by simp [hm]) (by simp [hm])
    exact h.main hsh (by simp) (fun e => by simp [hi] at e) (s.display.signal_eq_iff .drawn (by simp)).1 rfl
      (fun e => by simp at e)
  | join hm hd =>
    have hi := h.cleared (by simp [hm]) (by simp [hm])
    exact h.main hsh (by simp) (fun e => by simp [hi] at e) id rfl (fun _ => hd)
  | tearDown hm =>
    have hi := h.cleared (by simp [hm]) (by simp [hm])
    exact h.main hsh (by simp) (fun e => by simp [hi] at e) id rfl (fun _ => h.finished (.inl hm))
  | _ => exact h.congr hsh rfl rfl rfl rfl .inl .inl id

end Step

end Camview.Display

namespace Camview.Display.Sessions

/-- `init_display` has not been called in the session (`fresh`), whether the
session's display thread has set a frame on the planes (`shown`), and the
history: whether a `set_drm_*` issued its ioctl before that (`early`), and the
blocks ever changed. -/
structure State (F β : Type) where
  base : Display.State F β
  planes : Planes
  fresh : Bool
  shown : Bool
  early : Bool
  changed : Block → Bool

variable {F β : Type}

/-- What `init_display` is called with, and what it finds. -/
structure Init (F : Type) where
  planes : Planes
  width : UInt32
  height : UInt32
  blank : F

/-- The session that `init_display` starts on the globals of `s`. -/
def Init.session (I : Init F) (s : Display.State F β) : Session F β where
  planes := I.planes
  width := I.width
  height := I.height
  blank := I.blank
  displayInitialized := s.displayInitialized
  pendingControlsApply := s.pendingControlsApply
  params := s.params
  sent := s.sent

inductive Act (F β : Type)
  | thread (a : Display.Act F β)
  | initDisplay (I : Init F)
  /-- `main` begins the next session -/
  | nextSession

/-- The ioctl of a `set_drm_*` comes before the session's first frame is shown. -/
def State.sendsEarly (s : State F β) : Display.Act F β → Bool
  | .setDrmNext => s.base.control.isSending && !s.shown
  | _ => false

variable [DecidableEq β]

/-- The history after the step `a` of a thread that ends in `base`. -/
def State.observe (s : State F β) (a : Display.Act F β) (base : Display.State F β) : State F β :=
  { s with
    base
    shown := s.shown || base.display == .drawn
    early := s.early || s.sendsEarly a
    changed := fun b => s.changed b || base.params b != s.base.params b }

/-- A step of a thread, or of `main` between two sessions. A picture without rows
and columns is refused by `drmModeAddFB2`. -/
def step (s : State F β) : Act F β → Option (State F β)
  | .thread a => (Display.step s.planes s.base a).map (s.observe a)
  | .initDisplay I =>
    if s.fresh ∧ s.base.main = .returned ∧ s.base.exited = false ∧ ¬ (I.width <<< 16 = 0 ∧ I.height <<< 16 = 0) then
      some { s with
        base := { Display.initDisplay (I.session s.base) with control := s.base.control }
        planes := I.planes
        fresh := false }
    else none
  | .nextSession =>
    if s.base.main = .returned ∧ s.base.exited = false then some { s with fresh := true, shown := false } else none

/-- The program before its first session. -/
structure Start (s : State F β) : Prop where
  main : s.base.main = .returned
  decoder : s.base.decoder = .ended
  display : s.base.display = .finished
  control : s.base.control = .idle
  displayInitialized : s.base.displayInitialized = false
  fresh : s.fresh = true
  shown : s.shown = false
  early : s.early = false
  changed : ∀ b, s.changed b = false

def machine : Machine (State F β) (Act F β) where
  init := Start
  step := step

/-! ## No update is lost -/

/-- The steps of the runs the control thread finishes in time. -/
def InTime (s : State F β) : Act F β → Prop
  | .thread a => ControlFinished s.base a
  | _ => True

instance (s : State F β) : (a : Act F β) → Decidable (InTime s a)
  | .thread a => inferInstanceAs (Decidable (ControlFinished s.base a))
  | .initDisplay _ | .nextSession => isTrue trivial

variable {s s' : State F β}

omit [DecidableEq β] in
theorem notLost_start (hi : Start s) : NotLost s.changed s.base where
  size := fun hm => absurd (hm.symm.trans hi.main) (by simp)
  initialized := fun hm => absurd (hm.symm.trans hi.main) (by simp)
  finished := fun _ => hi.display
  control := fun _ => .inr hi.main
  known := fun b hb => absurd ((hi.changed b).symm.trans hb) Bool.noConfusion

omit [DecidableEq β] in
/-- `init_display` finds what the control thread has stored and deferred so far. -/
theorem notLost_initDisplay {changed : Block → Bool} {b : Display.State F β} (h : NotLost changed b) (I : Init F)
    (hsize : ¬ (I.width <<< 16 = 0 ∧ I.height <<< 16 = 0)) :
    NotLost changed { Display.initDisplay (I.session b) with control := b.control } where
  size := fun _ => hsize
  initialized := fun _ ha => absurd ha Bool.noConfusion
  finished := fun hm => by simp [Display.initDisplay] at hm
  control := fun _ => .inl rfl
  known := fun k hk => (h.known k hk).congr rfl rfl rfl rfl fun _ => rfl

theorem notLost_step {a : Act F β} (h : NotLost s.changed s.base) (hc : InTime s a)
    (hs : machine.step s a = some s') : NotLost s'.changed s'.base := by
  cases a with
  | thread a =>
    simp only [machine, step, Option.map_eq_some_iff] at hs
    obtain ⟨base, hb, rfl⟩ := hs
    exact h.step hc (step_cases hb).2
  | initDisplay I =>
    simp only [machine, step, Option.ite_none_right_eq_some, Option.some.injEq] at hs
    obtain ⟨⟨-, -, -, hsize⟩, rfl⟩ := hs
    exact notLost_initDisplay h I hsize
  | nextSession =>
    simp only [machine, step, Option.ite_none_right_eq_some, Option.some.injEq] at hs
    obtain ⟨-, rfl⟩ := hs
    exact h

/-- **No parameter update is lost.** Whenever no `set_drm_*` is running and nothing
is pending, as is so only outside the apply block, the driver was last sent each
block ever changed as it is. -/
theorem params_sent (h : machine.Via InTime s) (hc : s.base.control = .idle)
    (hp : s.base.pendingControlsApply = false) :
    ∀ b, s.changed b = true → s.base.sent b = some (s.base.params b) := by
  have hinv : NotLost s.changed s.base :=
    h.invariant (I := fun s => NotLost s.changed s.base) (fun _ hi => notLost_start hi)
      fun _ _ _ _ hi hc hs => notLost_step hi hc hs
  intro b hb
  have hk := hinv.known b hb
  simpa [Known, hc, hp] using hk

/-- What `init_display` is called with for a picture of 16 by 16 on both planes. -/
def picture : Init Unit := ⟨⟨true, true⟩, 16, 16, ()⟩

/-- Before the first session, all blocks 0. -/
def startState : State Unit Nat where
  base := { Display.initDisplay ⟨⟨true, true⟩, 16, 16, (), false, false, fun _ => 0, fun _ => none⟩ with
    main := .returned
    decoder := .ended
    display := .finished }
  planes := ⟨true, true⟩
  fresh := true
  shown := false
  early := false
  changed _ := false

theorem init_startState : machine.init startState :=
  Start.mk rfl rfl rfl rfl rfl rfl rfl rfl fun _ => rfl

/-- A block is changed before the display thread is there, which sends it with its
first frame. -/
def deferredOnce : List (Act Unit Nat) :=
  List.flatten [[.thread (.setDrm .bws 5), .thread .setDrmNext, .thread .setDrmNext, .initDisplay picture],
    List.replicate 10 (.thread (.display false))]

theorem params_sent_deferred : ∃ s, machine.execIf InTime startState deferredOnce = some s ∧
    s.base.params .bws = 5 ∧ s.base.sent .bws = some (s.base.params .bws) := by
  obtain ⟨s, hs, hp⟩ := Option.map_eq_some_iff.1
    (by decide +kernel : (machine.execIf InTime startState deferredOnce).map (fun s => s.base.control == .idle &&
      !s.base.pendingControlsApply && s.changed .bws && s.base.params .bws == 5) = some true)
  simp only [Bool.and_eq_true, beq_iff_eq, Bool.not_eq_true'] at hp
  obtain ⟨⟨⟨hc, hq⟩, hb⟩, h5⟩ := hp
  exact ⟨s, hs, h5, params_sent (Machine.Via.execIf (.start init_startState) hs) hc hq .bws hb⟩

/-! ## Deferred controls stay deferred -/

/-- The display thread does not set `display_initialized` after `terminate_display`
has cleared it, and no session begins while a `set_drm_*` is between its test of
the flag and its ioctl. -/
def NoStaleFlag (s : State F β) : Act F β → Prop
  | .thread a => NotAfterClear s.base a
  | .nextSession => s.base.control.isSending = false
  | .initDisplay _ => True

instance (s : State F β) : (a : Act F β) → Decidable (NoStaleFlag s a)
  | .thread a => inferInstanceAs (Decidable (NotAfterClear s.base a))
  | .nextSession => inferInstanceAs (Decidable (_ = _))
  | .initDisplay _ => isTrue trivial

/-- When `terminate_display` has returned the flag is 0, and no `set_drm_*` has
issued its ioctl before the first frame of its session was shown. -/
structure Deferred (s : State F β) : Prop where
  returned : s.base.main = .returned → s.base.displayInitialized = false
  early : s.early = false

omit [DecidableEq β] in
theorem held_start (hi : Start s) : Held s.shown s.base where
  size := fun hm => absurd (hm.symm.trans hi.main) (by simp)
  initialized := fun e => absurd (hi.displayInitialized.symm.trans e) Bool.noConfusion
  drawn := fun e => absurd (e.symm.trans hi.display) (by simp)
  sending := fun e => by simp [hi.control, ControlPc.isSending] at e
  finished := fun _ => hi.display

omit [DecidableEq β] in
/-- A control thread about to issue its ioctl does so in a session that has shown a frame. -/
theorem not_sendsEarly (h : Held s.shown s.base) (a : Display.Act F β) : s.sendsEarly a = false := by
  unfold State.sendsEarly
  split
  · cases hs : s.base.control.isSending with
    | false => rfl
    | true => simp [h.sending hs]
  · rfl

theorem held_step {a : Act F β} (h : Held s.shown s.base) (he : s.early = false) (hc : NoStaleFlag s a)
    (hs : machine.step s a = some s') : Held s'.shown s'.base ∧ s'.early = false := by
  cases a with
  | thread a =>
    simp only [machine, step, Option.map_eq_some_iff] at hs
    obtain ⟨base, hb, rfl⟩ := hs
    exact ⟨h.step hc (step_cases hb).2, by simp [State.observe, he, not_sendsEarly h]⟩
  | initDisplay I =>
    simp only [machine, step, Option.ite_none_right_eq_some, Option.some.injEq] at hs
    obtain ⟨⟨-, hm, -, hsize⟩, rfl⟩ := hs
    refine ⟨⟨fun _ => hsize, fun e => ?_, fun e => ?_, h.sending, fun e => ?_⟩, he⟩
    · exact absurd ((h.returned hm).symm.trans e) Bool.noConfusion
    · cases e
    · rcases e with e | e <;> cases e
  | nextSession =>
    simp only [machine, step, Option.ite_none_right_eq_some, Option.some.injEq] at hs
    obtain ⟨⟨hm, -⟩, rfl⟩ := hs
    refine ⟨⟨h.size, fun e => ?_, fun e => ?_, fun e => absurd (hc.symm.trans e) Bool.noConfusion, h.finished⟩, he⟩
    · exact absurd ((h.returned hm).symm.trans e) Bool.noConfusion
    · exact absurd ((h.finished (.inr hm)).symm.trans e) (by simp)

/-- **Deferred controls stay deferred.** -/
theorem controls_deferred (h : machine.Via NoStaleFlag s) : Deferred s := by
  have hinv : Held s.shown s.base ∧ s.early = false :=
    h.invariant (I := fun s => Held s.shown s.base ∧ s.early = false)
      (fun _ (hi : Start _) => ⟨held_start hi, hi.early⟩) fun _ _ _ _ hi hc hs => held_step hi.1 hi.2 hc hs
  exact ⟨hinv.1.returned, hinv.2⟩

/-- A session to its end, and a change of a block in the next one before its
display thread is there. -/
def twoSessions : List (Act Unit Nat) :=
  List.flatten [[.initDisplay picture], List.replicate 7 (.thread (.display false)), [.thread .endDecoder],
    List.replicate 4 (.thread .main), [.thread (.display false)], List.replicate 2 (.thread .main),
    [.nextSession, .thread (.setDrm .bws 5), .thread .setDrmNext, .thread .setDrmNext]]

theorem controls_deferred_twice : ∃ s, machine.execIf NoStaleFlag startState twoSessions = some s ∧
    (s.base.params .bws == 5 && s.base.pendingControlsApply) = true ∧ Deferred s := by
  obtain ⟨s, hs, hp⟩ := Option.map_eq_some_iff.1
    (by decide +kernel : (machine.execIf NoStaleFlag startState twoSessions).map
      (fun s => s.base.params .bws == 5 && s.base.pendingControlsApply) = some true)
  exact ⟨s, hs, hp, controls_deferred (Machine.Via.execIf (.start init_startState) hs)⟩

/-- `terminate_display` clears the flag before the display thread sets it for the
frame it has just drawn. -/
def staleFlag : List (Act Unit Nat) :=
  List.flatten [[.initDisplay picture], List.replicate 4 (.thread (.display false)), [.thread .endDecoder],
    List.replicate 2 (.thread .main), List.replicate 3 (.thread (.display false)), List.replicate 2 (.thread .main),
    [.thread (.display false)], List.replicate 2 (.thread .main),
    [.nextSession, .thread (.setDrm .bws 5), .thread .setDrmNext, .thread .setDrmNext]]

/-- `terminate_display` returns with the flag set, and in the next session a block
is sent before any frame. -/
theorem not_controls_deferred : ∃ s : State Unit Nat, machine.Reach s ∧ s.base.main = .returned ∧
    s.base.displayInitialized = true ∧ s.early = true := by
  obtain ⟨s, hs, hp⟩ := Machine.reach_of_exec staleFlag
    (fun s : State Unit Nat => s.base.main == .returned && s.base.displayInitialized && s.early)
    init_startState (by decide +kernel)
  simp only [Bool.and_eq_true, beq_iff_eq] at hp
  exact ⟨s, hs, hp.1.1, hp.1.2, hp.2⟩

end Camview.Display.Sessions
