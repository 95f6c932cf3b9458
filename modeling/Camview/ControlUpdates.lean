/-
External updates of the controls file: whether `control_loop` overwrites one that it
has not loaded.

An update is safe where the thread is sure to load the file before it next writes
it, or sure not to write it again. It is not from the first load to the end of the
poll before the loop, without a watch, nor between a poll and a write that may follow
(`Window`). Runs that keep updates out of these overwrite none; where one falls into
a window the run can go on so that it is overwritten.
-/
import Camview.ControlLoop
import Camview.ControlRoundTrip

namespace Camview.ControlLoop

open ControlFile

variable {δ : Type} {T : ParamTypes} {D : Driver δ} {J : JsonC} {s s' : State δ T} {a : Act T}

/-- Where an external update may be overwritten unread. -/
def Window (s : State δ T) : Prop :=
  match s.pc with
  | .writing | .cec | .rewriting | .finalWriting => True
  | .watching | .draining => s.hasChanges = true ∨ s.controlLoopRun = true
  | .top | .deciding | .sleeping => s.hasChanges = true ∨ s.controlLoopRun = true ∧ s.watched = false
  | .polling => s.watched = false
  | .loading | .reloading | .unwatching | .ended | .aborted => False

instance (s : State δ T) : Decidable (Window s) := by
  unfold Window
  cases s.pc <;> infer_instance

/-- External updates stay out of the windows, and what would notice and load one does:
`poll` does not fail, and `read_controls` gets the text, its size being one it takes. -/
def Safe (s : State δ T) : Act T → Prop
  | .external _ => ¬ Window s
  | .own ans =>
    match s.pc with
    | .loading | .reloading => s.unread = true → (givenText ans.stdio s.world.file).isSome = true
    | .polling => s.unread = true → ans.polled = true
    | _ => True
  | _ => True

instance (s : State δ T) (a : Act T) : Decidable (Safe s a) := by
  unfold Safe
  split
  · infer_instance
  · split <;> infer_instance
  · infer_instance

/-- A content not loaded yet is about to be, or nothing will be written. -/
def Noticed (s : State δ T) : Prop :=
  match s.pc with
  | .loading | .reloading | .unwatching | .ended | .aborted => True
  | .watching | .draining => s.hasChanges = false ∧ s.controlLoopRun = false
  | .top | .deciding | .sleeping => s.hasChanges = false ∧ (s.controlLoopRun = true → s.event = true)
  | .polling => s.event = true
  | .writing | .cec | .rewriting | .finalWriting => False

/-- Nothing was lost, nor will what is unread. -/
structure Kept (s : State δ T) : Prop where
  lost : s.lost = false
  unread : s.unread = true → Noticed s

theorem Kept.of_read (hl : s.lost = false) (hu : s.unread = false) : Kept s :=
  ⟨hl, fun e => by rw [hu] at e; cases e⟩

/-- Where an unread content is not noticed, there is none. -/
theorem Kept.read (h : Kept s) (hn : ¬ Noticed s) : s.unread = false := by
  cases hu : s.unread
  · rfl
  · exact absurd (h.unread hu) hn

theorem Kept.load {ans : Answers T} {had : Bool} {next : Pc} (h : Kept s)
    (hread : s.unread = true → (givenText ans.stdio s.world.file).isSome = true) : Kept (s.load D J ans had next) := by
  unfold State.load
  split
  · exact ⟨h.lost, fun _ => trivial⟩
  · refine .of_read h.lost ?_
    cases hu : s.unread
    · rfl
    · simp [Option.isNone_eq_false_iff.2 (hread hu)]

/-- What is written over where an unread content would not be noticed has been read. -/
theorem Kept.write (opened : Bool) (h : Kept s) (hn : ¬ Noticed s) :
    (s.write D J opened).lost = false ∧ (s.write D J opened).unread = false := by
  have hu := h.read hn
  unfold State.write
  split
  · simp [h.lost, hu]
  · exact ⟨h.lost, hu⟩

theorem Kept.own {ans : Answers T} (h : Kept s) (ha : Safe s (.own ans)) (hs : own D J ans s = some s') :
    Kept s' := by
  unfold ControlLoop.own at hs
  cases hpc : s.pc <;> simp only [hpc, Option.some.injEq, reduceCtorEq] at hs <;>
    simp only [Safe, hpc] at ha
  case loading => exact hs ▸ h.load ha
  case reloading => exact hs ▸ h.load ha
  case writing | rewriting | finalWriting =>
    have hw := h.write (D := D) (J := J) ans.opened (by simp [Noticed, hpc])
    subst hs
    exact .of_read hw.1 hw.2
  case watching =>
    subst hs
    refine ⟨h.lost, fun hu => ?_⟩
    simpa [Noticed, hpc] using h.unread hu
  case draining =>
    subst hs
    refine ⟨by simpa using h.lost, fun hu => ?_⟩
    have hu : s.unread = true := by simpa using hu
    obtain ⟨hc, hr⟩ : s.hasChanges = false ∧ s.controlLoopRun = false := by simpa [Noticed, hpc] using h.unread hu
    simp [Noticed, hc, hr]
  case top =>
    subst hs
    refine ⟨h.lost, fun hu => ?_⟩
    obtain ⟨hc, he⟩ : s.hasChanges = false ∧ (s.controlLoopRun = true → s.event = true) := by
      simpa [Noticed, hpc] using h.unread hu
    cases hr : s.controlLoopRun
    · simp [Noticed, hc]
    · simp [Noticed, he hr]
  case polling =>
    subst hs
    refine ⟨by simpa using h.lost, fun hu => ?_⟩
    have hu : s.unread = true := by simpa using hu
    have he : s.event = true := by simpa [Noticed, hpc] using h.unread hu
    simp [Noticed, he, ha hu]
  case cec =>
    have hu := h.read (by simp [Noticed, hpc])
    subst hs
    exact .of_read h.lost hu
  case deciding =>
    split at hs
    · next hc =>
      have hu := h.read (by simp [Noticed, hpc, hc])
      cases hs
      exact .of_read h.lost hu
    · cases hs
      refine ⟨h.lost, fun hu => ?_⟩
      simpa [Noticed, hpc] using h.unread hu
  case sleeping =>
    subst hs
    refine ⟨h.lost, fun hu => ?_⟩
    simpa [Noticed, hpc] using h.unread hu
  case unwatching =>
    subst hs
    exact ⟨h.lost, fun _ => trivial⟩

/-- An update out of the windows is noticed. -/
theorem noticed_external {text : List UInt8} (hw : ¬ Window s) :
    Noticed { s with
      world := { s.world with file := some text }
      event := s.event || s.watched
      unread := true } := by
  unfold Window at hw
  unfold Noticed
  cases hpc : s.pc <;> simp_all

theorem Noticed.touch (h : Noticed s) : Noticed { s with event := s.event || s.watched } := by
  unfold Noticed at h ⊢
  cases hpc : s.pc <;> simp_all

theorem Noticed.stop (h : Noticed s) : Noticed { s with controlLoopRun := false } := by
  unfold Noticed at h ⊢
  cases hpc : s.pc <;> simp_all

theorem Kept.step (h : Kept s) (ha : Safe s a) (hs : step D J s a = some s') : Kept s' := by
  cases a with
  | own ans => exact h.own ha hs
  | external text =>
    cases hs
    exact ⟨h.lost, fun _ => noticed_external ha⟩
  | touch =>
    cases hs
    exact ⟨h.lost, fun hu => (h.unread hu).touch⟩
  | stop =>
    cases hs
    exact ⟨h.lost, fun hu => (h.unread hu).stop⟩
  | display initialized pending =>
    cases hs
    exact ⟨h.lost, h.unread⟩

theorem kept_of_via (h : (machine D J).Via Safe s) : Kept s := by
  refine h.invariant (fun s hi => ?_) fun s a s' _ hk ha hs => hk.step ha hs
  obtain ⟨hpc, -, -, -, -, -, hl⟩ := hi
  exact ⟨hl, fun _ => by simp [Noticed, hpc]⟩

/-- **No external update is lost.** -/
theorem update_not_lost (h : (machine D J).Via Safe s) : s.lost = false := (kept_of_via h).lost

/-! ### A run with an update -/

/-- No controls, and every field of the display absent. -/
def emptyUpdate : Json := .object [("device", .array []), ("display", .object [])]

def emptyText : List UInt8 := ((jsonCOf emptyUpdate).print emptyUpdate).bytes

def startState : State (Nat → Int32) bytesAndWords where
  pc := .loading
  hasChanges := false
  loopCount := 0
  controlLoopRun := true
  data2 _ := 0
  world := webcamWorld
  watched := false
  event := false
  unread := false
  lost := false

/-- Calls that do not fail, and no message. -/
def answers : Answers bytesAndWords := ⟨⟨true, true⟩, webcamWorld.params, true, true, true, []⟩

theorem init_startState : (machine webcam (jsonCOf emptyUpdate)).init startState :=
  ⟨rfl, rfl, rfl, rfl, rfl, fun h => (by cases h), rfl⟩

/-- The start-up, an update when it is over, and the round that loads it. -/
def noticedRun : List (Act bytesAndWords) :=
  List.flatten [List.replicate 4 (.own answers), [.external emptyText], List.replicate 4 (.own answers)]

theorem update_not_lost_noticed : ∃ s,
    (machine webcam (jsonCOf emptyUpdate)).execIf Safe startState noticedRun = some s ∧
      (s.hasChanges && !s.unread) = true ∧ s.lost = false := by
  obtain ⟨s, hs, hp⟩ := Option.map_eq_some_iff.1 (by decide +kernel :
    ((machine webcam (jsonCOf emptyUpdate)).execIf Safe startState noticedRun).map
      (fun s => s.hasChanges && !s.unread) = some true)
  exact ⟨s, hs, hp, update_not_lost (Machine.Via.execIf (.start init_startState) hs)⟩

/-- An update between the first load and the first write. -/
theorem not_update_not_lost : ∃ s : State (Nat → Int32) bytesAndWords,
    (machine webcam (jsonCOf emptyUpdate)).Reach s ∧ s.lost = true :=
  Machine.reach_of_exec [.own answers, .external emptyText, .own answers] State.lost init_startState
    (by decide +kernel)

/-! ## Updates in a window -/

/-- The calls of a step not failing, with these messages. -/
def fair (messages : List (Cec.Message × Int32)) (s : State δ T) : Answers T where
  stdio := ⟨true, true⟩
  stack := s.world.params
  opened := true
  watch := true
  polled := true
  messages := messages

/-- What the continuations below do: steps of the thread that do not fail, and
`control_loop_run = 0`. -/
def Fair (s : State δ T) (a : Act T) : Prop := a = .stop ∨ ∃ messages, a = .own (fair messages s)

/-- The run can go on so that an unread content is overwritten. -/
def Lossy (D : Driver δ) (J : JsonC) (s : State δ T) : Prop := ∃ t, (machine D J).Steps Fair s t ∧ t.lost = true

theorem Lossy.own (messages : List (Cec.Message × Int32)) (hs : ControlLoop.own D J (fair messages s) s = some s')
    (h : Lossy D J s') : Lossy D J s := by
  obtain ⟨t, ht, hl⟩ := h
  exact ⟨t, ht.head (.inr ⟨messages, rfl⟩) hs, hl⟩

theorem lossy_writing (hpc : s.pc = .writing ∨ s.pc = .rewriting ∨ s.pc = .finalWriting) (hu : s.unread = true) :
    Lossy D J s := by
  obtain ⟨s', hs, hl⟩ := own_writes (D := D) (J := J) (fair [] s) hpc
  exact .own [] hs ⟨s', .refl, by simp [hl, State.write, fair, hu]⟩

theorem lossy_top (hpc : s.pc = .top) (hc : s.hasChanges = true) (hu : s.unread = true) : Lossy D J s := by
  have h : Lossy D J { s with controlLoopRun := false } :=
    .own [] (own_top hpc) (lossy_writing (.inr (.inr (by simp [hc]))) hu)
  obtain ⟨t, ht, hl⟩ := h
  exact ⟨t, ht.head (.inl rfl) rfl, hl⟩

theorem lossy_sleeping (hpc : s.pc = .sleeping) (hc : s.hasChanges = true) (hu : s.unread = true) : Lossy D J s :=
  .own [] (own_sleeping hpc) (lossy_top rfl hc hu)

theorem lossy_deciding (hpc : s.pc = .deciding) (hc : s.hasChanges = true) (hu : s.unread = true) : Lossy D J s := by
  refine .own [] (own_deciding hpc hc) ?_
  by_cases hn : s.loopCount + 1 > 20
  · exact lossy_writing (.inr (.inl (by simp [hn]))) hu
  · exact lossy_sleeping (by simp [hn]) hc hu

section

variable (hcec : ∀ d (w : World δ T), ∃ messages, (pollCecEvents D messages d w).2.2 = true)

include hcec

theorem lossy_cec (hpc : s.pc = .cec) (hu : s.unread = true) : Lossy D J s := by
  obtain ⟨messages, hm⟩ := hcec s.data2 s.world
  exact .own messages (own_cec hpc) (lossy_deciding rfl (by simp [fair, hm]) hu)

theorem lossy_polling (hpc : s.pc = .polling) (he : s.event = false) (hu : s.unread = true) : Lossy D J s :=
  .own [] (own_polling hpc) (lossy_cec hcec (by simp [he]) (by simpa using hu))

/-- Without an event, the loop goes on to `poll_cec_events`. -/
theorem lossy_running (hpc : s.pc = .top) (h : s.hasChanges = true ∨ s.controlLoopRun = true) (he : s.event = false)
    (hu : s.unread = true) : Lossy D J s := by
  by_cases hc : s.hasChanges = true
  · exact lossy_top hpc hc hu
  · have hr : s.controlLoopRun = true := h.resolve_left hc
    exact .own [] (own_top hpc) (lossy_polling hcec (by simp [hr]) he hu)

theorem lossy_draining (hpc : s.pc = .draining) (h : s.hasChanges = true ∨ s.controlLoopRun = true)
    (hu : s.unread = true) : Lossy D J s := by
  refine .own [] (own_draining hpc) (lossy_running hcec rfl (by simpa using h) ?_ (by simpa using hu))
  cases he : s.event
  · simp [State.poll, he]
  · simp [State.poll, he, fair]

theorem lossy_unwatched (hpc : s.pc = .deciding ∨ s.pc = .sleeping)
    (h : s.hasChanges = true ∨ s.controlLoopRun = true) (he : s.event = false) (hu : s.unread = true) :
    Lossy D J s := by
  rcases hpc with hpc | hpc
  · cases hc : s.hasChanges
    · exact .own [] (own_waiting hpc hc) (.own [] (own_sleeping rfl) (lossy_running hcec rfl h he hu))
    · exact lossy_deciding hpc hc hu
  · exact .own [] (own_sleeping hpc) (lossy_running hcec rfl h he hu)

/-- An update in a window is not noticed in time. -/
theorem lossy_window (hw : Window s) (hu : s.unread = true) (he : s.watched = false → s.event = false) :
    Lossy D J s := by
  cases hpc : s.pc <;> simp only [Window, hpc] at hw
  case writing => exact lossy_writing (.inl hpc) hu
  case rewriting => exact lossy_writing (.inr (.inl hpc)) hu
  case finalWriting => exact lossy_writing (.inr (.inr hpc)) hu
  case watching => exact .own [] (own_watching hpc) (lossy_draining hcec rfl hw hu)
  case draining => exact lossy_draining hcec hpc hw hu
  case cec => exact lossy_cec hcec hpc hu
  case polling => exact lossy_polling hcec hpc (he hw) hu
  case top =>
    rcases hw with hc | ⟨hr, hn⟩
    · exact lossy_top hpc hc hu
    · exact lossy_running hcec hpc (.inr hr) (he hn) hu
  case deciding =>
    rcases hw with hc | ⟨hr, hn⟩
    · exact lossy_deciding hpc hc hu
    · exact lossy_unwatched hcec (.inl hpc) (.inr hr) (he hn) hu
  case sleeping =>
    rcases hw with hc | ⟨hr, hn⟩
    · exact lossy_sleeping hpc hc hu
    · exact lossy_unwatched hcec (.inr hpc) (.inr hr) (he hn) hu

end

/-- An event is only raised under a watch, which there is none of at first. -/
structure EventWatched (s : State δ T) : Prop where
  watched : s.event = true → s.watched = true
  first : s.pc = .loading ∨ s.pc = .writing ∨ s.pc = .watching → s.watched = false

theorem EventWatched.raise (h : EventWatched s) (he : (s.event || s.watched) = true) : s.watched = true := by
  rcases Bool.or_eq_true_iff.1 he with he | hw
  · exact h.watched he
  · exact hw

theorem EventWatched.load {ans : Answers T} {had : Bool} {next : Pc} (h : EventWatched s)
    (hfirst : s.pc = .loading ∨ next = .cec) : EventWatched (s.load D J ans had next) := by
  unfold State.load
  split
  · exact ⟨h.watched, by simp⟩
  · refine ⟨h.watched, fun hn => ?_⟩
    rcases hfirst with hpc | rfl
    · exact h.first (.inl hpc)
    · simp at hn

theorem EventWatched.write (opened : Bool) (h : EventWatched s) :
    (s.write D J opened).event = true → (s.write D J opened).watched = true := by
  unfold State.write
  split
  · exact h.raise
  · exact h.watched

theorem EventWatched.poll (polled : Bool) (h : EventWatched s) :
    (s.poll polled).event = true → (s.poll polled).watched = true := by
  unfold State.poll
  split
  · simp
  · exact h.watched

theorem EventWatched.own {ans : Answers T} (h : EventWatched s) (hs : ControlLoop.own D J ans s = some s') :
    EventWatched s' := by
  unfold ControlLoop.own at hs
  cases hpc : s.pc <;> simp only [hpc, Option.some.injEq, reduceCtorEq] at hs
  case loading => exact hs ▸ h.load (.inl hpc)
  case reloading => exact hs ▸ h.load (.inr rfl)
  case writing =>
    subst hs
    refine ⟨h.write ans.opened, fun _ => ?_⟩
    have hw := h.first (.inr (.inl hpc))
    unfold State.write
    split <;> exact hw
  case watching =>
    have hw := h.first (.inr (.inr hpc))
    subst hs
    refine ⟨fun he => ?_, by simp⟩
    have := h.watched he
    simp [hw] at this
  case draining => subst hs; exact ⟨h.poll _, by simp⟩
  case polling => subst hs; exact ⟨h.poll _, by simp; split <;> simp⟩
  case top => subst hs; exact ⟨h.watched, by simp; split <;> [skip; split] <;> simp⟩
  case deciding =>
    split at hs
    · cases hs; exact ⟨h.watched, by simp; split <;> simp⟩
    · cases hs; exact ⟨h.watched, by simp⟩
  case rewriting | finalWriting => subst hs; exact ⟨h.write _, by simp⟩
  case cec | sleeping => subst hs; exact ⟨h.watched, by simp⟩
  case unwatching => subst hs; exact ⟨by simp, by simp⟩

theorem eventWatched (h : (machine D J).Reach s) : EventWatched s := by
  refine h.invariant (fun s hi => ?_) fun s a s' _ hi hs => ?_
  · obtain ⟨-, -, -, hw, he, -⟩ := hi
    exact ⟨fun e => by simp [he] at e, fun _ => hw⟩
  cases a with
  | own ans => exact hi.own hs
  | external text | touch =>
    cases hs
    exact ⟨hi.raise, hi.first⟩
  | stop | display initialized pending =>
    cases hs
    exact ⟨hi.watched, hi.first⟩

/-- What `load_file_controls` does where no text comes to the parser. -/
theorem loadFileControls_of_none {io : Stdio} {w : World δ T} (h : givenText io w.file = none) (stack : Params T) :
    loadFileControls D J io stack w = some (w, false) := by
  unfold loadFileControls readControls
  rw [(readJson_of_none h).1]
  split <;> rfl

/-- Every step the condition leaves out, an update in a window or a call that fails
to notice or load one, can end in an update overwritten unread, if some CEC message
changes a control of the camera. -/
theorem lossy_of_not_safe (hcec : ∀ d (w : World δ T), ∃ messages, (pollCecEvents D messages d w).2.2 = true)
    (h : (machine D J).Reach s) (hs : step D J s a = some s') (ha : ¬ Safe s a) : Lossy D J s' := by
  have he := eventWatched h
  cases a with
  | external text =>
    cases hs
    refine lossy_window hcec (by simpa [Safe, Window] using ha) rfl fun hw => ?_
    cases hr : s.event || s.watched
    · rfl
    · simp [he.raise hr] at hw
  | own ans =>
    simp only [Safe] at ha
    split at ha
    · next hpc =>
      obtain ⟨hu, ho⟩ : s.unread = true ∧ givenText ans.stdio s.world.file = none := by simpa using ha
      simp only [step, ControlLoop.own, hpc, State.load, loadFileControls_of_none ho, Option.some.injEq] at hs
      subst hs
      exact lossy_writing (.inl rfl) (by simp [hu, ho])
    · next hpc =>
      obtain ⟨hu, ho⟩ : s.unread = true ∧ givenText ans.stdio s.world.file = none := by simpa using ha
      simp only [step, ControlLoop.own, hpc, State.load, loadFileControls_of_none ho, Option.some.injEq] at hs
      subst hs
      exact lossy_cec hcec rfl (by simp [hu, ho])
    · next hpc =>
      obtain ⟨hu, ho⟩ : s.unread = true ∧ ans.polled = false := by simpa using ha
      rw [step, own_polling hpc] at hs
      cases hs
      exact lossy_cec hcec (by simp [ho]) (by simpa using hu)
    · exact absurd trivial ha
  | touch | stop | display initialized pending => exact absurd trivial ha

end Camview.ControlLoop
