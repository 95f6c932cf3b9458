/-
The framebuffers of `display.c` at the driver, over any number of sessions: `init_display`
adds three, `display_thread_loop` sets them on the planes, `terminate_display` turns the
planes off and `deallocate_buffers` removes the framebuffers.

`framebuffers_safe`: none is removed while a plane shows it, none is set that is not there,
and after `hw_close` there is none left. It rests on the join of `terminate_display`, which
is not reached when both source sizes are 0: `drmModeAddFB2` refuses such a picture, and
`init_display` does not return without a first framebuffer. The program needs two CRTCs:
with fewer, `display_thread_loop` reads past `crtcs` and `new_planes`.

It is about the runs in which `terminate_display` succeeds in turning the planes off, which
it does not check (`TurnsOff`), and in which the capture thread has ended when `main` gets to
`hw_close`: one that `main` gave up waiting for and cancelled may still be in
`hw_decode_jpeg_main`.
-/
import Camview.DisplaySessions
import Camview.OutputPlanes
import Mathlib.Data.Fin.VecNotation

namespace Camview.Framebuffers

open OutputPlanes (PlanePtr DrmModePlane findNewPlane)

variable {F β : Type}

/-! ## State -/

/-- The driver: the planes there are, the framebuffers of the program, and what each plane
shows, 0 for nothing. -/
structure Device where
  planes : List UInt32
  framebuffers : List UInt32
  shows : UInt32 → UInt32

/-- A call that must not be. -/
inductive Fault
  /-- `drmModeRmFB` of a framebuffer that is shown -/
  | removed (id : UInt32)
  /-- `drmModeSetPlane` of a framebuffer that is not there -/
  | unknown (id : UInt32)
deriving DecidableEq, Repr

/-- The threads of `display.c`, its variables `new_planes`, `buf_id`, `buf_id2` and
`buf_id3`, whether `init_display` was called in this session, and the driver. -/
structure State (F β : Type) where
  display : Display.State F β
  newPlanes : Nat → Option PlanePtr
  bufId : Fin 3 → UInt32
  inSession : Bool
  initialized : Bool
  exited : Bool
  device : Device
  faults : List Fault

/-- `crtcs[0] && new_planes[0]` and `crtcs[1] && new_planes[1]`. -/
def State.planes (s : State F β) : Display.Planes := ⟨(s.newPlanes 0).isSome, (s.newPlanes 1).isSome⟩

/-- `buf_ids[display_buffer]`. -/
def State.bufIds (s : State F β) (displayBuffer : UInt8) : UInt32 :=
  if displayBuffer = 1 then s.bufId 0
  else if displayBuffer = 2 then s.bufId 1
  else if displayBuffer = 3 then s.bufId 2
  else 0

/-! ## Calls of the driver -/

/-- `drmModeSetPlane` on the plane of a CRTC, if it has one. -/
def setPlane (plane : Option PlanePtr) (fb : UInt32) (s : State F β) : State F β :=
  match plane with
  | none => s
  | some p =>
    if fb ≠ 0 ∧ fb ∉ s.device.framebuffers then { s with faults := s.faults ++ [.unknown fb] }
    else { s with device := { s.device with shows := Function.update s.device.shows p.plane.planeId fb } }

/-- `drmModeRmFB`, if there is a framebuffer. One that was removed before is not found. -/
def rmFb (id : UInt32) (s : State F β) : State F β :=
  if id = 0 ∨ id ∉ s.device.framebuffers then s
  else
    { s with
      device := { s.device with framebuffers := s.device.framebuffers.filter (· ≠ id) }
      faults := s.faults ++ if s.device.planes.any (s.device.shows · = id) then [.removed id] else [] }

/-! ## Functions -/

/-- What `drmModeAddFB2` may answer three times for a picture: 0 when it fails, as it does
for a picture without rows or columns, or an identifier that is not in use. -/
structure Answers (width height : UInt16) (id : Fin 3 → UInt32) (device : Device) : Prop where
  size : id 0 ≠ 0 → width ≠ 0 ∧ height ≠ 0
  fresh : ∀ i, id i ≠ 0 → id i ∉ device.framebuffers ∧ id i ∉ device.planes.map device.shows

instance (width height : UInt16) (id : Fin 3 → UInt32) (device : Device) :
    Decidable (Answers width height id device) :=
  decidable_of_iff ((id 0 ≠ 0 → width ≠ 0 ∧ height ≠ 0) ∧
      ∀ i, id i ≠ 0 → id i ∉ device.framebuffers ∧ id i ∉ device.planes.map device.shows)
    ⟨fun h => ⟨h.1, h.2⟩, fun h => ⟨h.size, h.fresh⟩⟩

/-- What `init_display` is called with and what it finds. -/
structure Init (F : Type) where
  width : UInt16
  height : UInt16
  format : UInt32
  blank : F
  planes : List (Option DrmModePlane)
  id : Fin 3 → UInt32

/-- `init_display`. Without a plane or a first framebuffer it ends the process. -/
def initDisplay (countCrtcs : Nat) (I : Init F) (s : State F β) : State F β :=
  match findNewPlane countCrtcs I.planes I.format with
  | none => { s with exited := true }
  | some found =>
    let s := { s with
      newPlanes := found.newPlanes
      bufId := I.id
      device := { s.device with
        framebuffers := s.device.framebuffers ++ [I.id 0, I.id 1, I.id 2].filter (· ≠ 0) }
      initialized := true }
    if I.id 0 = 0 then { s with exited := true }
    else
      let session : Display.Session F β :=
        { planes := s.planes
          width := I.width.toUInt32
          height := I.height.toUInt32
          blank := I.blank
          displayInitialized := s.display.displayInitialized
          pendingControlsApply := s.display.pendingControlsApply
          params := s.display.params
          sent := s.display.sent }
      { s with display := { Display.initDisplay session with control := s.display.control } }

/-- The loop of `terminate_display`, and of `stop_drm`, over the CRTCs; `off` is for which
of them the call succeeds. -/
def clearPlanes (countCrtcs : Nat) (off : Nat → Bool) (s : State F β) : State F β :=
  (List.range countCrtcs).foldl (fun s i => if off i then setPlane (s.newPlanes i) 0 s else s) s

/-- What the driver is asked for in a step of the threads. When it fails to set a
framebuffer, the process ends. -/
def calls (countCrtcs : Nat) (a : Display.Act F β) (off : Nat → Bool) (s : State F β) : State F β :=
  match a, s.display.display with
  | .display false, .drawHdmi => setPlane (s.newPlanes 0) (s.bufIds s.display.displayBuffer) s
  | .display false, .drawComposite => setPlane (s.newPlanes 1) (s.bufIds s.display.displayBuffer) s
  | .main, _ => if s.display.main = .tearDown then clearPlanes countCrtcs off s else s
  | _, _ => s

/-- `drmModeRmFB` three times. -/
def deallocateBuffers (s : State F β) : State F β :=
  { rmFb (s.bufId 2) (rmFb (s.bufId 1) (rmFb (s.bufId 0) s)) with inSession := false, initialized := false }

/-! ## The system -/

inductive Act (F β : Type)
  | hwInit
  | initDisplay (I : Init F)
  /-- a step of the display thread, the decoder, the control thread or `terminate_display`,
  with which planes the latter turns off -/
  | thread (a : Display.Act F β) (off : Nat → Bool)
  /-- the rest of `hw_close` -/
  | deallocateBuffers
  | stopDrm (off : Nat → Bool)

variable [DecidableEq β]

/-- One step. The capture thread has ended when `hw_close` comes, which is why no frame is
being decoded then, and `init_display` and the threads have no step after it. -/
def step (countCrtcs : Nat) (s : State F β) (a : Act F β) : Option (State F β) :=
  if s.exited ∨ s.display.exited then none else
  match a with
  | .hwInit => if s.inSession = false then some { s with inSession := true } else none
  | .initDisplay I =>
    if s.inSession ∧ s.initialized = false ∧ Answers I.width I.height I.id s.device then
      some (initDisplay countCrtcs I s)
    else none
  | .thread a off =>
    (Display.step s.planes s.display a).map fun display => { calls countCrtcs a off s with display }
  | .deallocateBuffers =>
    if s.inSession ∧ s.display.main = .returned then some (deallocateBuffers s) else none
  | .stopDrm off => if s.inSession = false then some { clearPlanes countCrtcs off s with exited := true } else none

/-- All sessions of the program, from the end of `start_drm`, which leaves the planes with
what is in `shows`. -/
def machine (countCrtcs : Nat) (shows : UInt32 → UInt32) : Machine (State F β) (Act F β) where
  init s := s.display.main = .returned ∧ s.display.display = .finished ∧ s.newPlanes = (fun _ => none) ∧
    s.inSession = false ∧ s.initialized = false ∧ s.device.framebuffers = [] ∧ s.device.shows = shows ∧
    s.faults = []
  step := step countCrtcs

/-- `terminate_display` succeeds in turning off the planes that show something. -/
def TurnsOff (countCrtcs : Nat) (s : State F β) : Act F β → Prop
  | .thread .main off => s.display.main = .tearDown → ∀ i < countCrtcs, ∀ p ∈ s.newPlanes i,
      s.device.shows p.plane.planeId ≠ 0 → off i = true
  | _ => True

/-! ## The threads -/

/-- The display thread is over when `terminate_display` turns the planes off, which it
comes to in every session with a display. -/
structure Runs (d : Display.State F β) : Prop where
  finished : d.main = .tearDown ∨ d.main = .returned → d.display = .finished
  size : d.main = .running → ¬ (d.srcWidth = 0 ∧ d.srcHeight = 0)

section Threads

omit [DecidableEq β]

variable {P : Display.Planes} {d d' : Display.State F β} {a : Display.Act F β}

theorem Runs.step (h : Runs d) (hs : Display.Trans P d a d') :
    Runs d' ∧ (d'.main = .returned ↔ d.main = .returned ∨ a = .main ∧ d.main = .tearDown) := by
  cases hs with
  | testOn hd | testOff hd | wait hd | take hd | wakeTake hd | wakeEmpty hd | showHdmi hd | noHdmi hd
  | showComposite hd | noComposite hd | drawn hd | pending hd | noPending hd | apply hd | clearPending hd
  | giveBack hd | noGiveBack hd =>
    refine ⟨⟨fun hm => ?_, h.size⟩, by simp [Display.takeHead, Display.showHdmi, Display.showComposite,
      Display.sendBlock, Display.returnPrev]⟩
    exact absurd (hd.symm.trans (h.finished hm)) (by simp)
  | put =>
    refine ⟨⟨fun hm => ?_, h.size⟩, by simp [Display.putBuffer]⟩
    exact Display.DisplayPc.signal_finished (h.finished hm)
  | terminateNothing hm _ hz => exact absurd hz (h.size hm)
  | terminate hm => exact ⟨⟨by simp, by simp⟩, by simp [hm]⟩
  | clearInitialized hm | clearRun hm | signal hm => exact ⟨⟨by simp, by simp⟩, by simp [hm]⟩
  | join hm hd => exact ⟨⟨fun _ => hd, by simp⟩, by simp [hm]⟩
  | tearDown hm => exact ⟨⟨fun _ => h.finished (.inl hm), by simp⟩, by simp [hm]⟩
  | _ => exact ⟨⟨h.finished, h.size⟩, by simp [Display.dequeueAvailable, Display.decodeInto, Display.sendBlock]⟩

end Threads

/-! ## The driver -/

section Driver

omit [DecidableEq β]

variable {s : State F β} {countCrtcs : Nat} {fb id : UInt32} {a : Display.Act F β} {off : Nat → Bool}

/-- Turning a plane off, or setting a framebuffer that is there. -/
theorem setPlane_eq (plane : Option PlanePtr) (h : fb = 0 ∨ fb ∈ s.device.framebuffers) :
    setPlane plane fb s = match plane with
      | none => s
      | some p =>
        { s with device := { s.device with shows := Function.update s.device.shows p.plane.planeId fb } } := by
  unfold setPlane
  cases plane with
  | none => rfl
  | some p => exact if_neg fun hn => h.elim hn.1 hn.2

/-- The planes of the CRTCs are off for which the call succeeds, or which were; the others
are as they were. -/
theorem clearPlanes_eq (countCrtcs : Nat) (off : Nat → Bool) (s : State F β) :
    ∃ shows, clearPlanes countCrtcs off s = { s with device := { s.device with shows } } ∧
      (∀ plane, shows plane = 0 ∨ shows plane = s.device.shows plane) ∧
      ∀ i p, i < countCrtcs → s.newPlanes i = some p → (s.device.shows p.plane.planeId ≠ 0 → off i = true) →
        shows p.plane.planeId = 0 := by
  induction countCrtcs with
  | zero => exact ⟨s.device.shows, rfl, fun _ => .inr rfl, fun i p hi => absurd hi (by omega)⟩
  | succ n ih =>
    obtain ⟨shows, he, hk, hc⟩ := ih
    have hsucc : clearPlanes (n + 1) off s =
        if off n then setPlane (s.newPlanes n) 0 (clearPlanes n off s) else clearPlanes n off s := by
      unfold clearPlanes at he ⊢
      rw [List.range_succ, List.foldl_append, List.foldl_cons, List.foldl_nil, he]
    -- A plane that shows nothing stays so, whether its call succeeds or not.
    have hzero {plane : UInt32} (h0 : s.device.shows plane = 0) : shows plane = 0 :=
      (hk plane).elim id fun h => h.trans h0
    cases ho : off n with
    | false =>
      rw [hsucc, ho]
      refine ⟨shows, he, hk, fun i p hi hip hoff => ?_⟩
      rcases Nat.lt_succ_iff_lt_or_eq.1 hi with hi | rfl
      · exact hc i p hi hip hoff
      · refine hzero (not_not.1 fun h0 => ?_)
        exact Bool.noConfusion (ho.symm.trans (hoff h0))
    | true =>
      rw [hsucc, ho, if_pos rfl, setPlane_eq _ (.inl rfl), he]
      cases hp : s.newPlanes n with
      | none =>
        refine ⟨shows, rfl, hk, fun i p hi hip hoff => ?_⟩
        rcases Nat.lt_succ_iff_lt_or_eq.1 hi with hi | rfl
        · exact hc i p hi hip hoff
        · rw [hp] at hip
          cases hip
      | some q =>
        refine ⟨Function.update shows q.plane.planeId 0, rfl, fun plane => ?_, fun i p hi hip hoff => ?_⟩
        · by_cases hq : plane = q.plane.planeId
          · exact .inl (by rw [hq, Function.update_self])
          · rw [Function.update_of_ne hq]
            exact hk plane
        · by_cases hq : p.plane.planeId = q.plane.planeId
          · rw [hq, Function.update_self]
          · rw [Function.update_of_ne hq]
            rcases Nat.lt_succ_iff_lt_or_eq.1 hi with hi | rfl
            · exact hc i p hi hip hoff
            · rw [hp] at hip
              cases hip
              exact absurd rfl hq

/-- A framebuffer that no plane shows. -/
theorem rmFb_eq (h0 : 0 ∉ s.device.framebuffers)
    (hs : ∀ plane ∈ s.device.planes, s.device.shows plane ∉ s.device.framebuffers) :
    rmFb id s = { s with device := { s.device with framebuffers := s.device.framebuffers.filter (· ≠ id) } } := by
  unfold rmFb
  split
  · next h =>
    have hn : id ∉ s.device.framebuffers := h.elim (fun e => e ▸ h0) (fun e => e)
    rw [List.filter_eq_self.2 fun b hb => by simpa using fun e : b = id => hn (e ▸ hb)]
  · next h =>
    have hin : id ∈ s.device.framebuffers := not_not.1 (not_or.1 h).2
    have hany : s.device.planes.any (s.device.shows · = id) = false := by
      rw [List.any_eq_false]
      intro plane hp he
      exact hs plane hp (by simpa [of_decide_eq_true he] using hin)
    rw [hany]
    simp

/-- What a step of the threads asks the driver for. -/
theorem calls_cases (countCrtcs : Nat) (a : Display.Act F β) (off : Nat → Bool) (s : State F β) :
    calls countCrtcs a off s = s ∧ ¬ (a = .main ∧ s.display.main = .tearDown) ∨
      (a ≠ .main ∧ s.display.display ≠ .finished ∧ ∃ i < 2, calls countCrtcs a off s =
        setPlane (s.newPlanes i) (s.bufIds s.display.displayBuffer) s) ∨
      a = .main ∧ s.display.main = .tearDown ∧ calls countCrtcs a off s = clearPlanes countCrtcs off s := by
  unfold calls
  split
  · next hd => exact .inr (.inl ⟨by simp, by simp [hd], 0, by omega, rfl⟩)
  · next hd => exact .inr (.inl ⟨by simp, by simp [hd], 1, by omega, rfl⟩)
  · split
    · next hm => exact .inr (.inr ⟨rfl, hm, rfl⟩)
    · next hm => exact .inl ⟨rfl, fun h => hm h.2⟩
  · next hmain _ _ => exact .inl ⟨rfl, fun h => hmain h.1⟩

end Driver

/-! ## What holds over the sessions -/

/-- The plane belongs to one of the two CRTCs that are drawn on. -/
def State.Own (s : State F β) (plane : UInt32) : Prop := ∃ i < 2, ∃ p, s.newPlanes i = some p ∧ p.plane.planeId = plane

/-- Outside a session there is no framebuffer; in it the framebuffers are those of the
three variables. A plane shows one of them only if it belongs to a CRTC, and until
`terminate_display` turns it off. -/
structure Inv (shows : UInt32 → UInt32) (s : State F β) : Prop where
  faults : s.faults = []
  runs : Runs s.display
  session : s.inSession = false → s.initialized = false
  closed : s.initialized = false → s.display.main = .returned ∧ s.device.framebuffers = []
  bufId : s.initialized = true → ∀ i, s.bufId i = 0 ∨ s.bufId i ∈ s.device.framebuffers
  framebuffers : ∀ id ∈ s.device.framebuffers, id ≠ 0 ∧ ∃ i, s.bufId i = id
  ours : ∀ plane ∈ s.device.planes, s.device.shows plane ∈ s.device.framebuffers →
    s.Own plane ∧ s.display.main ≠ .returned
  kept : ∀ plane, s.device.shows plane = 0 ∨ s.device.shows plane = shows plane ∨
    s.Own plane ∧ s.display.main ≠ .returned

section Step

omit [DecidableEq β]

variable {s : State F β} {shows : UInt32 → UInt32} {countCrtcs : Nat} {display : Display.State F β} {off : Nat → Bool}

theorem zero_not_mem (h : Inv shows s) : 0 ∉ s.device.framebuffers := fun hm => (h.framebuffers 0 hm).1 rfl

theorem bufIds_mem (h : Inv shows s) (hi : s.initialized = true) (b : UInt8) :
    s.bufIds b = 0 ∨ s.bufIds b ∈ s.device.framebuffers := by
  unfold State.bufIds
  split
  · exact h.bufId hi 0
  split
  · exact h.bufId hi 1
  split
  · exact h.bufId hi 2
  · exact .inl rfl

/-- A step of the threads that asks the driver for nothing. -/
theorem Inv.moves (h : Inv shows s) (hr : Runs display)
    (hm : display.main = .returned ↔ s.display.main = .returned) : Inv shows { s with display } := by
  refine ⟨h.faults, hr, h.session, fun hi => ?_, h.bufId, h.framebuffers, fun plane hp hs => ?_, fun plane => ?_⟩
  · exact ⟨hm.2 (h.closed hi).1, (h.closed hi).2⟩
  · exact ⟨(h.ours plane hp hs).1, fun e => (h.ours plane hp hs).2 (hm.1 e)⟩
  · exact (h.kept plane).imp_right (.imp_right fun hk => ⟨hk.1, fun e => hk.2 (hm.1 e)⟩)

/-- The display thread sets a framebuffer on the plane of a CRTC. -/
theorem Inv.draws (h : Inv shows s) (hd : s.display.display ≠ .finished) {i : Nat} (hi : i < 2) (b : UInt8) :
    Inv shows (setPlane (s.newPlanes i) (s.bufIds b) s) := by
  have hret : s.display.main ≠ .returned := fun e => hd (h.runs.finished (.inr e))
  have hinit : s.initialized = true := by
    by_contra hn
    exact hret (h.closed (by simpa using hn)).1
  rw [setPlane_eq _ (bufIds_mem h hinit b)]
  cases hp : s.newPlanes i with
  | none => exact h
  | some p =>
    have hown : s.Own p.plane.planeId := ⟨i, hi, p, hp, rfl⟩
    refine ⟨h.faults, h.runs, h.session, h.closed, h.bufId, h.framebuffers, fun plane hpl hs => ?_, fun plane => ?_⟩
    · by_cases hq : plane = p.plane.planeId
      · exact ⟨hq ▸ hown, hret⟩
      · dsimp only at hs
        rw [Function.update_of_ne hq] at hs
        exact h.ours plane hpl hs
    · by_cases hq : plane = p.plane.planeId
      · exact .inr (.inr ⟨hq ▸ hown, hret⟩)
      · dsimp only
        rw [Function.update_of_ne hq]
        exact h.kept plane

/-- Some of the planes are turned off. -/
theorem Inv.clears (h : Inv shows s) (countCrtcs : Nat) (off : Nat → Bool) :
    Inv shows (clearPlanes countCrtcs off s) := by
  obtain ⟨shows', he, hk, -⟩ := clearPlanes_eq countCrtcs off s
  rw [he]
  refine ⟨h.faults, h.runs, h.session, h.closed, h.bufId, h.framebuffers, fun plane hp hs => ?_, fun plane => ?_⟩
  · have hsame : shows' plane = s.device.shows plane := (hk plane).resolve_left fun e => zero_not_mem h (e ▸ hs)
    exact h.ours plane hp (hsame ▸ hs)
  · dsimp only
    rcases hk plane with h0 | hsame
    · exact .inl h0
    · rw [hsame]
      exact h.kept plane

/-- `terminate_display` turns all of them off. -/
theorem Inv.tearsDown (h : Inv shows s) (h2 : 2 ≤ countCrtcs)
    (hoff : ∀ i < countCrtcs, ∀ p ∈ s.newPlanes i, s.device.shows p.plane.planeId ≠ 0 → off i = true)
    (hr : Runs display) (hret : display.main = .returned) :
    Inv shows { clearPlanes countCrtcs off s with display } := by
  have hclears := h.clears countCrtcs off
  obtain ⟨shows', he, -, hc⟩ := clearPlanes_eq countCrtcs off s
  rw [he] at hclears ⊢
  have hzero {plane : UInt32} (hown : s.Own plane) : shows' plane = 0 := by
    obtain ⟨i, hi, p, hp, rfl⟩ := hown
    exact hc i p (by omega) hp (hoff i (by omega) p hp)
  refine ⟨h.faults, hr, h.session, fun hn => ⟨hret, (h.closed hn).2⟩, h.bufId, h.framebuffers, fun plane hp hs => ?_,
    fun plane => ?_⟩
  · exact absurd (hzero (hclears.ours plane hp hs).1) fun e => zero_not_mem h (e ▸ hs)
  · rcases hclears.kept plane with hz | hold | hown
    · exact .inl hz
    · exact .inr (.inl hold)
    · exact .inl (hzero hown.1)

theorem Inv.exits (h : Inv shows s) : Inv shows { s with exited := true } :=
  ⟨h.faults, h.runs, h.session, h.closed, h.bufId, h.framebuffers, h.ours, h.kept⟩

/-- A picture with columns has a width that is not 0. -/
theorem shift_ne_zero {w : UInt16} (hw : w ≠ 0) : w.toUInt32 <<< 16 ≠ 0 := by
  intro h
  have hlt := w.toNat_lt
  have hn := congrArg UInt32.toNat h
  rw [UInt32.toNat_shiftLeft, UInt16.toNat_toUInt32, Nat.shiftLeft_eq] at hn
  exact hw (UInt16.toNat_inj.1 (by simp at hn ⊢; omega))

/-- `init_display` adds its framebuffers while no plane shows any. -/
theorem Inv.adds (h : Inv shows s) (hin : s.inSession = true) (hi : s.initialized = false) {I : Init F}
    (ha : Answers I.width I.height I.id s.device) (newPlanes : Nat → Option PlanePtr) (hr : Runs display) :
    Inv shows { s with
      display
      newPlanes
      bufId := I.id
      device := { s.device with
        framebuffers := s.device.framebuffers ++ [I.id 0, I.id 1, I.id 2].filter (· ≠ 0) }
      initialized := true } := by
  obtain ⟨hret, hnone⟩ := h.closed hi
  have hmem (id : UInt32) : id ∈ s.device.framebuffers ++ [I.id 0, I.id 1, I.id 2].filter (· ≠ 0) ↔
      id ≠ 0 ∧ ∃ i, I.id i = id := by
    rw [hnone, List.nil_append, List.mem_filter, and_comm]
    simp only [ne_eq, decide_not, Bool.not_eq_true', decide_eq_false_iff_not, List.mem_cons, List.not_mem_nil, or_false]
    refine and_congr_right fun _ => ?_
    constructor
    · rintro (e | e | e)
      · exact ⟨0, e.symm⟩
      · exact ⟨1, e.symm⟩
      · exact ⟨2, e.symm⟩
    · rintro ⟨i, hid⟩
      match i with
      | 0 => exact .inl hid.symm
      | 1 => exact .inr (.inl hid.symm)
      | 2 => exact .inr (.inr hid.symm)
  refine ⟨h.faults, hr, fun hn => absurd (hin.symm.trans hn) (by simp), fun hn => absurd hn (by simp), fun _ i => ?_,
    fun id hid => (hmem id).1 hid, fun plane hp hs => ?_, fun plane => ?_⟩
  · by_cases h0 : I.id i = 0
    · exact .inl h0
    · exact .inr ((hmem _).2 ⟨h0, i, rfl⟩)
  · obtain ⟨h0, i, hid⟩ := (hmem _).1 hs
    exact absurd (List.mem_map.2 ⟨plane, hp, hid.symm⟩) (ha.fresh i (hid ▸ h0)).2
  · rcases h.kept plane with hz | hold | hown
    · exact .inl hz
    · exact .inr (.inl hold)
    · exact absurd hret hown.2

theorem Inv.initDisplay (h : Inv shows s) (hin : s.inSession = true) (hi : s.initialized = false) {I : Init F}
    (ha : Answers I.width I.height I.id s.device) : Inv shows (initDisplay countCrtcs I s) := by
  unfold Framebuffers.initDisplay
  split
  · exact h.exits
  next found hfound =>
  dsimp only
  split
  · exact (h.adds hin hi ha found.newPlanes h.runs).exits
  next h0 =>
  obtain ⟨hw, -⟩ := ha.size h0
  refine h.adds hin hi ha found.newPlanes ⟨fun hm => ?_, fun _ hz => shift_ne_zero hw hz.1⟩
  simp [Display.initDisplay] at hm

/-- `deallocate_buffers` comes when no plane shows a framebuffer, and removes all three. -/
theorem Inv.deallocates (h : Inv shows s) (hm : s.display.main = .returned) : Inv shows (deallocateBuffers s) := by
  have hoff : ∀ plane ∈ s.device.planes, s.device.shows plane ∉ s.device.framebuffers :=
    fun plane hp hs => (h.ours plane hp hs).2 hm
  have h0 := zero_not_mem h
  have hrm (l : List UInt32) (hl : l ⊆ s.device.framebuffers) (id : UInt32) :
      rmFb id { s with device := { s.device with framebuffers := l } } =
        { s with device := { s.device with framebuffers := l.filter (· ≠ id) } } :=
    rmFb_eq (fun hn => h0 (hl hn)) fun plane hp hn => hoff plane hp (hl hn)
  have hnil : ((s.device.framebuffers.filter (· ≠ s.bufId 0)).filter (· ≠ s.bufId 1)).filter (· ≠ s.bufId 2) = [] := by
    refine List.eq_nil_iff_forall_not_mem.2 fun b hb => ?_
    simp only [List.mem_filter, ne_eq, decide_not, Bool.not_eq_true', decide_eq_false_iff_not] at hb
    obtain ⟨⟨⟨hb, hb0⟩, hb1⟩, hb2⟩ := hb
    obtain ⟨-, i, hid⟩ := h.framebuffers b hb
    match i with
    | 0 => exact hb0 hid.symm
    | 1 => exact hb1 hid.symm
    | 2 => exact hb2 hid.symm
  have hall : rmFb (s.bufId 2) (rmFb (s.bufId 1) (rmFb (s.bufId 0) s)) =
      { s with device := { s.device with framebuffers := [] } } := by
    rw [← hnil, ← hrm _ fun b hb => (List.mem_filter.1 (List.mem_filter.1 hb).1).1,
      ← hrm _ fun b hb => (List.mem_filter.1 hb).1, ← hrm _ (List.Subset.refl _)]
  unfold Framebuffers.deallocateBuffers
  rw [hall]
  refine ⟨h.faults, h.runs, fun _ => rfl, fun _ => ⟨hm, rfl⟩, fun hn => absurd hn (by simp), fun id hid => ?_,
    fun _ _ hs => ?_, h.kept⟩
  · cases hid
  · cases hs

end Step

variable {s s' : State F β} {shows : UInt32 → UInt32} {countCrtcs : Nat} {a : Act F β}

theorem Inv.step (h : Inv shows s) (h2 : 2 ≤ countCrtcs) (hoff : TurnsOff countCrtcs s a)
    (hs : step countCrtcs s a = some s') : Inv shows s' := by
  simp only [Framebuffers.step, Option.ite_none_left_eq_some] at hs
  obtain ⟨-, hs⟩ := hs
  cases a with
  | hwInit =>
    simp only [Option.ite_none_right_eq_some, Option.some.injEq] at hs
    obtain ⟨hin, rfl⟩ := hs
    exact ⟨h.faults, h.runs, fun hn => absurd hn (by simp), h.closed, h.bufId, h.framebuffers, h.ours, h.kept⟩
  | initDisplay I =>
    simp only [Option.ite_none_right_eq_some, Option.some.injEq] at hs
    obtain ⟨⟨hin, hi, ha⟩, rfl⟩ := hs
    exact h.initDisplay hin hi ha
  | thread a off =>
    obtain ⟨display, hd, rfl⟩ := Option.map_eq_some_iff.1 hs
    obtain ⟨hr, hm⟩ := h.runs.step (Display.step_cases hd).2
    rcases calls_cases countCrtcs a off s with ⟨he, hn⟩ | ⟨hn, hf, i, hi, he⟩ | ⟨ha, ht, he⟩
    · rw [he]
      exact h.moves hr (hm.trans (or_iff_left hn))
    · have hdraws := h.draws hf hi s.display.displayBuffer
      have hkept : (setPlane (s.newPlanes i) (s.bufIds s.display.displayBuffer) s).display = s.display := by
        unfold setPlane
        split
        · rfl
        · split <;> rfl
      rw [he]
      refine hdraws.moves hr ?_
      rw [hkept]
      exact hm.trans (or_iff_left fun hc => hn hc.1)
    · rw [he]
      subst ha
      exact h.tearsDown h2 (hoff ht) hr (hm.2 (.inr ⟨rfl, ht⟩))
  | deallocateBuffers =>
    simp only [Option.ite_none_right_eq_some, Option.some.injEq] at hs
    obtain ⟨⟨-, hm⟩, rfl⟩ := hs
    exact h.deallocates hm
  | stopDrm off =>
    simp only [Option.ite_none_right_eq_some, Option.some.injEq] at hs
    obtain ⟨-, rfl⟩ := hs
    exact (h.clears countCrtcs off).exits

theorem inv_via (h2 : 2 ≤ countCrtcs) (h : (machine countCrtcs shows).Via (TurnsOff countCrtcs) s) : Inv shows s := by
  refine h.invariant (I := Inv shows) (fun s hi => ?_) fun s a s' _ hi ha hs => hi.step h2 ha hs
  obtain ⟨hm, hd, -, hin, hi, hf, hs, hfaults⟩ := hi
  refine ⟨hfaults, ⟨fun _ => hd, fun e => ?_⟩, fun _ => hi, fun _ => ⟨hm, hf⟩, fun hn => ?_, ?_, ?_, fun plane => ?_⟩
  · rw [hm] at e
    cases e
  · rw [hi] at hn
    cases hn
  · simp [hf]
  · simp [hf]
  · exact .inr (.inl (by rw [hs]))

/-! ## The program -/

omit [DecidableEq β] in
/-- Outside a session no plane shows a framebuffer of the program. -/
theorem Inv.shows_of_closed (h : Inv shows s) (hin : s.inSession = false) (plane : UInt32) :
    s.device.shows plane = 0 ∨ s.device.shows plane = shows plane := by
  obtain ⟨hm, -⟩ := h.closed (h.session hin)
  exact (h.kept plane).imp_right fun hk => hk.resolve_right fun hown => hown.2 hm

/-- No call of the driver was wrong; outside a session there is no framebuffer, and every
plane is off or shows what it did before the program. -/
structure Safe (shows : UInt32 → UInt32) (s : State F β) : Prop where
  faults : s.faults = []
  closed : s.inSession = false →
    s.device.framebuffers = [] ∧ ∀ plane, s.device.shows plane = 0 ∨ s.device.shows plane = shows plane

/-- **Framebuffers.** In every run over any number of sessions in which
`terminate_display` succeeds in turning the planes off, with any planes, any other answers
of the driver and any interleaving of the threads, no framebuffer is removed while it is
shown or shown when it is not there, and none is left behind. -/
theorem framebuffers_safe (h2 : 2 ≤ countCrtcs) (h : (machine countCrtcs shows).Via (TurnsOff countCrtcs) s) :
    Safe shows s := by
  have hi := inv_via h2 h
  exact ⟨hi.faults, fun hin => ⟨(hi.closed (hi.session hin)).2, hi.shows_of_closed hin⟩⟩

/-- Planes 5 and 6, one for each of the two CRTCs, on which there is nothing. -/
def startState : State Unit Nat :=
  ⟨Display.Sessions.startState.base, fun _ => none, fun _ => 0, false, false, false, ⟨[5, 6], [], fun _ => 0⟩, []⟩

theorem init_startState : (machine 2 fun _ => 0).init startState := ⟨rfl, rfl, rfl, rfl, rfl, rfl, rfl, rfl⟩

def picture : Init Unit := ⟨16, 16, 7, (), [some ⟨5, [7], 1⟩, some ⟨6, [7], 2⟩], ![40, 41, 42]⟩

/-- The blank picture is shown on both planes. -/
def toPicture : List (Act Unit Nat) :=
  [.hwInit, .initDisplay picture] ++ List.replicate 4 (.thread (.display false) fun _ => false)

/-- The end of the session: `off` is which planes `terminate_display` turns off. -/
def toEnd (off : Nat → Bool) : List (Act Unit Nat) :=
  [.thread .endDecoder off] ++ List.replicate 4 (.thread .main off) ++
    List.replicate 4 (.thread (.display false) off) ++ List.replicate 2 (.thread .main off) ++ [.deallocateBuffers]

instance (countCrtcs : Nat) (s : State F β) : (a : Act F β) → Decidable (TurnsOff countCrtcs s a)
  | .thread .main off =>
    inferInstanceAs (Decidable (_ = _ → ∀ i < countCrtcs, ∀ p ∈ s.newPlanes i, _ ≠ _ → off i = true))
  | .thread .get _ | .thread .wakeDecoder _ | .thread (.decode _) _ | .thread .put _ | .thread .endDecoder _
  | .thread (.display _) _ | .thread .wakeDisplay _ | .thread (.setDrm _ _) _ | .thread .setDrmNext _ => isTrue trivial
  | .hwInit | .initDisplay _ | .deallocateBuffers | .stopDrm _ => isTrue trivial

/-- One session and the end of the program. `stop_drm` fails to turn the planes off again. -/
theorem framebuffers_safe_session : ∃ s, (machine 2 fun _ => 0).execIf (TurnsOff 2) startState
      (toPicture ++ toEnd (fun _ => true) ++ [.stopDrm fun _ => false]) = some s ∧
    ((machine 2 fun _ => 0).exec startState toPicture).map (fun s => (s.device.shows 5, s.device.shows 6)) =
      some (40, 40) ∧
    (s.device.shows 5, s.device.shows 6) = (0, 0) ∧ Safe (fun _ => 0) s := by
  obtain ⟨s, hs, hp⟩ := Option.map_eq_some_iff.1
    (by decide +kernel : ((machine 2 fun _ => 0).execIf (TurnsOff 2) startState
      (toPicture ++ toEnd (fun _ => true) ++ [.stopDrm fun _ => false])).map
        (fun s => (s.device.shows 5, s.device.shows 6)) = some (0, 0))
  exact ⟨s, hs, by decide +kernel, hp, framebuffers_safe (by decide) (.execIf (.start init_startState) hs)⟩

/-- Where `terminate_display` fails to turn a plane off, its framebuffer is removed while it
is shown. -/
example : ((machine 2 fun _ => 0).exec startState (toPicture ++ toEnd (· != 0))).map State.faults =
    some [.removed 40] := by decide +kernel

end Camview.Framebuffers
