/-
What `init_display` obtains and `deallocate_buffers` gives back, over any number
of sessions: for each of the three buffers a GEM handle, a framebuffer, a file
descriptor and a mapping.

`hw_close` calls `deallocate_buffers` whether or not a frame of the session got
to `hw_init_display`, and nothing clears the variables it looks at.
-/
import Camview.DecodeSession
import Camview.Ledger
import Mathlib.Data.Multiset.OrderedMonoid

namespace Camview.Release

/-- What can be released. A descriptor of another file is not one of these. -/
inductive Resource
  | mapping (addr : Nat) (size : UInt32)
  | fd (n : Nat)
  | framebuffer (id : UInt32)
  | gem (handle : UInt32)
deriving DecidableEq, Repr

/-- The kernel's answers for one buffer: the handle and the framebuffer, 0 when
they cannot be had; the descriptor, `none` when `drmPrimeHandleToFD` fails; the
mapping, `none` when it is `MAP_FAILED`. -/
structure Answer where
  handle : UInt32
  fb : UInt32
  fd : Option Nat
  map : Option Nat

/-- The variables of one buffer: `data.handle`, `buf_id`, `buf_fd` and
`buffer_map`; and whether `drmPrimeHandleToFD` succeeded for it. -/
structure Buffer where
  handle : UInt32
  bufId : UInt32
  bufFd : Nat
  bufferMap : Nat
  exported : Bool

structure State where
  hw : Hw.State
  buffer1 : Buffer
  buffer2 : Buffer
  buffer3 : Buffer
  bufferSize : UInt32
  /-- between `hw_init` and `hw_close` -/
  inSession : Bool
  ledger : Ledger Resource

/-! ## init_display -/

/-- The section for one buffer. -/
def createBuffer (answer : Answer) : Buffer where
  handle := answer.handle
  bufId := answer.fb
  bufFd := answer.fd.getD 0
  bufferMap := answer.map.getD 0
  exported := answer.fd.isSome

def Buffer.mapping (size : UInt32) (b : Buffer) : List Resource :=
  if b.bufferMap ≠ 0 then [.mapping b.bufferMap size] else []

def Buffer.framebuffer (b : Buffer) : List Resource := if b.bufId ≠ 0 then [.framebuffer b.bufId] else []

def Buffer.gem (b : Buffer) : List Resource := if b.handle ≠ 0 then [.gem b.handle] else []

def Buffer.export (b : Buffer) : List Resource := if b.exported then [.fd b.bufFd] else []

/-- What that section obtained. -/
def Buffer.obtained (size : UInt32) (b : Buffer) : List Resource :=
  b.gem ++ b.framebuffer ++ b.export ++ b.mapping size

/-- `init_display` ends the process: it writes to `MAP_FAILED`, or has no first
framebuffer. -/
def endsProcess (a1 a2 a3 : Answer) : Bool := a1.map.isNone || a2.map.isNone || a3.map.isNone || a1.fb == 0

/-- `init_display`, when it returns. -/
def initDisplay (size : UInt32) (a1 a2 a3 : Answer) (s : State) : State :=
  { s with
    buffer1 := createBuffer a1
    buffer2 := createBuffer a2
    buffer3 := createBuffer a3
    bufferSize := size
    ledger := s.ledger.obtain ((createBuffer a1).obtained size ++ (createBuffer a2).obtained size ++
      (createBuffer a3).obtained size) }

/-! ## deallocate_buffers -/

/-- What is released, in this order. -/
def State.releases (s : State) : List Resource :=
  s.buffer1.mapping s.bufferSize ++ s.buffer2.mapping s.bufferSize ++ s.buffer3.mapping s.bufferSize ++
    [.fd s.buffer1.bufFd, .fd s.buffer2.bufFd, .fd s.buffer3.bufFd] ++
    s.buffer1.framebuffer ++ s.buffer1.gem ++ s.buffer2.framebuffer ++ s.buffer2.gem ++
    s.buffer3.framebuffer ++ s.buffer3.gem

/-- `deallocate_buffers`. -/
def deallocateBuffers (s : State) : State := { s with ledger := s.ledger.releaseAll s.releases }

/-! ## Sessions -/

/-- `hw_init`. The history of `Hw.State` is that of the session. -/
def hwInit (s : State) : State := { s with inSession := true, hw := { s.hw with initFrame := none, decoded := [] } }

/-- `hw_decode_jpeg_main` on a frame, with the answers `init_display` gets if it
comes to that. -/
def hwDecodeJpegMain (f : Hw.Frame) (a1 a2 a3 : Answer) (s : State) : State :=
  let f := { f with displayFails := f.displayFails || endsProcess a1 a2 a3 }
  let t := { s with hw := Hw.hwDecodeJpegMain f s.hw }
  match f.parse with
  | none => t
  | some jpeg =>
    if s.hw.displayInitialized then t
    else if Hw.getFormat jpeg = 0 then t
    else if f.displayFails then t
    else initDisplay (Hw.displayLayout f jpeg).bufferSize a1 a2 a3 t

/-- `hw_close`. -/
def hwClose (s : State) : State :=
  let s := deallocateBuffers s
  { s with hw := { s.hw with displayInitialized := false }, inSession := false }

inductive Act
  | hwInit
  | frame (f : Hw.Frame) (a1 a2 a3 : Answer)
  | hwClose

def step (s : State) : Act → Option State
  | .hwInit => if s.inSession = false ∧ s.hw.exited = false then some (hwInit s) else none
  | .frame f a1 a2 a3 =>
    if s.inSession ∧ s.hw.exited = false then some (hwDecodeJpegMain f a1 a2 a3 s) else none
  | .hwClose => if s.inSession ∧ s.hw.exited = false then some (hwClose s) else none

/-- A buffer before the first `init_display`. -/
def noBuffer : Buffer := ⟨0, 0, 0, 0, false⟩

/-- Sessions from the start of the program. -/
def machine : Machine State Act where
  init s := s.hw.displayInitialized = false ∧ s.hw.exited = false ∧ s.buffer1 = noBuffer ∧ s.buffer2 = noBuffer ∧
    s.buffer3 = noBuffer ∧ s.bufferSize = 0 ∧ s.inSession = false ∧ s.ledger = .empty
  step := step

/-! ## What is held -/

variable {s s' : State}

def State.obtained (s : State) : List Resource :=
  s.buffer1.obtained s.bufferSize ++ s.buffer2.obtained s.bufferSize ++ s.buffer3.obtained s.bufferSize

/-- `drmPrimeHandleToFD` succeeded for all three buffers of the last `init_display`. -/
def State.Exported (s : State) : Prop := s.buffer1.exported ∧ s.buffer2.exported ∧ s.buffer3.exported

/-- While the display is initialised, what that `init_display` obtained is held;
otherwise nothing is. -/
structure Inv (s : State) : Prop where
  closed : s.inSession = false → s.hw.displayInitialized = false
  idle : s.hw.displayInitialized = false → s.ledger.held = 0
  shown : s.hw.displayInitialized = true → s.ledger.held = s.obtained

/-- The three descriptors `deallocate_buffers` closes. -/
def State.closes (s : State) : List Resource := [.fd s.buffer1.bufFd, .fd s.buffer2.bufFd, .fd s.buffer3.bufFd]

def State.exports (s : State) : List Resource := s.buffer1.export ++ s.buffer2.export ++ s.buffer3.export

theorem length_export (b : Buffer) : b.export.length = if b.exported then 1 else 0 := by
  unfold Buffer.export
  split
  · rfl
  · rfl

theorem exports_le (s : State) : (s.exports : Multiset Resource) ≤ s.closes := by
  have hone (b : Buffer) : b.export.Sublist [Resource.fd b.bufFd] := by
    unfold Buffer.export
    split
    · exact List.Sublist.refl _
    · exact List.nil_sublist _
  exact (((hone _).append (hone _)).append (hone _)).subperm

/-- Only the descriptors can be released without having been obtained. -/
theorem count_releases (s : State) (r : Resource) :
    s.releases.count r + s.exports.count r = s.obtained.count r + s.closes.count r := by
  simp only [State.releases, State.obtained, Buffer.obtained, State.closes, State.exports, List.count_append]
  omega

/-- Nothing is held that `deallocate_buffers` does not release. -/
theorem obtained_le (s : State) : (s.obtained : Multiset Resource) ≤ s.releases := by
  rw [Multiset.le_iff_count]
  intro r
  have h := Multiset.le_iff_count.1 (exports_le s) r
  have hc := count_releases s r
  simp only [Multiset.coe_count] at h ⊢
  omega

theorem releases_le_iff (s : State) : (s.releases : Multiset Resource) ≤ s.obtained ↔ s.Exported := by
  have hcloses : (s.releases : Multiset Resource) ≤ s.obtained ↔ (s.closes : Multiset Resource) ≤ s.exports := by
    simp only [Multiset.le_iff_count, Multiset.coe_count]
    refine forall_congr' fun r => ?_
    have hc := count_releases s r
    omega
  rw [hcloses]
  constructor
  · intro h
    have hcard := Multiset.card_le_card h
    simp only [Multiset.coe_card, State.closes, State.exports, List.length_append, length_export,
      List.length_cons, List.length_nil] at hcard
    refine ⟨?_, ?_, ?_⟩
    all_goals
      by_contra hn
      rw [if_neg hn] at hcard
      split_ifs at hcard <;> omega
  · rintro ⟨h1, h2, h3⟩
    simp [State.closes, State.exports, Buffer.export, h1, h2, h3]

/-! ## One lemma for each function -/

theorem inv_init (hi : machine.init s) : Inv s := by
  obtain ⟨hd, -, -, -, -, -, -, hl⟩ := hi
  exact ⟨fun _ => hd, fun _ => by rw [hl]; rfl, fun h => absurd (hd.symm.trans h) Bool.noConfusion⟩

/-- A frame that does not initialise the display obtains nothing. -/
theorem Inv.congr (h : Inv s) {hw : Hw.State} (hd : hw.displayInitialized = s.hw.displayInitialized) :
    Inv { s with hw } :=
  ⟨fun hc => hd.trans (h.closed hc), fun hn => h.idle (hd.symm.trans hn), fun hs => h.shown (hd.symm.trans hs)⟩

theorem Inv.hwDecodeJpegMain (h : Inv s) (hin : s.inSession = true) (f : Hw.Frame) (a1 a2 a3 : Answer) :
    (hwDecodeJpegMain f a1 a2 a3 s).ledger.bad = s.ledger.bad ∧ Inv (hwDecodeJpegMain f a1 a2 a3 s) := by
  unfold Release.hwDecodeJpegMain Hw.hwDecodeJpegMain
  dsimp only
  rw [show Hw.Frame.parse { f with displayFails := f.displayFails || endsProcess a1 a2 a3 } = f.parse from rfl]
  cases f.parse with
  | none => exact ⟨rfl, h⟩
  | some jpeg =>
    dsimp only
    cases hd : s.hw.displayInitialized with
    | true =>
      rw [if_pos rfl, if_pos rfl]
      exact ⟨rfl, h.congr (Hw.decodeInto_displayInitialized ..)⟩
    | false =>
      simp only [Bool.false_eq_true, if_false]
      split
      · exact ⟨rfl, h⟩
      split
      · exact ⟨rfl, h.congr hd.symm⟩
      · refine ⟨rfl, fun hc => ?_, fun hn => ?_, fun _ => ?_⟩
        · exact absurd (hin.symm.trans hc) Bool.noConfusion
        · simp only [initDisplay, Hw.decodeInto_displayInitialized] at hn
          exact absurd hn Bool.noConfusion
        · simp only [initDisplay, Ledger.obtain_held, h.idle hd, zero_add]
          rfl

/-- `hw_close` releases what is held exactly if the display is initialised and has
its three descriptors. -/
theorem Inv.hwClose (h : Inv s) :
    ((hwClose s).ledger.bad = [] ↔ s.ledger.bad = [] ∧ s.hw.displayInitialized = true ∧ s.Exported) ∧
      Inv (hwClose s) := by
  have hle : s.ledger.held ≤ s.releases := by
    cases hd : s.hw.displayInitialized with
    | false => simp [h.idle hd]
    | true => simpa only [h.shown hd] using obtained_le s
  have hheld : (Release.hwClose s).ledger.held = 0 :=
    Ledger.releaseAll_held.trans (tsub_eq_zero_of_le hle)
  refine ⟨?_, fun _ => rfl, fun _ => hheld, fun hc => absurd hc Bool.noConfusion⟩
  refine Ledger.releaseAll_bad.trans (and_congr_right fun _ => ?_)
  cases hd : s.hw.displayInitialized with
  | false =>
    have hne : s.releases ≠ [] := by simp [State.releases]
    simp [h.idle hd, hne]
  | true =>
    rw [h.shown hd, releases_le_iff]
    simp

/-! ## Runs -/

/-- A session is closed only after a frame of it got to `hw_init_display`, and
`drmPrimeHandleToFD` succeeded for its three buffers. -/
def DisplayReady (s : State) : Act → Prop
  | .hwClose => s.hw.displayInitialized = true ∧ s.Exported
  | _ => True

theorem Inv.step (h : Inv s) {a : Act} (hs : step s a = some s') :
    (s'.ledger.bad = [] ↔ s.ledger.bad = [] ∧ DisplayReady s a) ∧ Inv s' := by
  cases a with
  | hwInit =>
    simp only [Release.step, Option.ite_none_right_eq_some, Option.some.injEq] at hs
    obtain ⟨⟨hin, -⟩, rfl⟩ := hs
    exact ⟨by simp [hwInit, DisplayReady], fun hc => absurd hc Bool.noConfusion, h.idle, h.shown⟩
  | frame f a1 a2 a3 =>
    simp only [Release.step, Option.ite_none_right_eq_some, Option.some.injEq] at hs
    obtain ⟨⟨hin, -⟩, rfl⟩ := hs
    obtain ⟨hb, hi⟩ := h.hwDecodeJpegMain hin f a1 a2 a3
    exact ⟨by simp [hb, DisplayReady], hi⟩
  | hwClose =>
    simp only [Release.step, Option.ite_none_right_eq_some, Option.some.injEq] at hs
    obtain ⟨-, rfl⟩ := hs
    exact h.hwClose

theorem reach_inv (h : machine.Reach s) : Inv s :=
  h.invariant (I := Inv) (fun _ hi => inv_init hi) fun _ _ _ _ hi hs => (hi.step hs).2

/-- **Display resources are released once.** Over any sessions, whatever
`deallocate_buffers` releases was obtained by an `init_display` and not released
since, in exactly the runs that close only sessions with a display. -/
theorem display_releases (s : State) : machine.Via DisplayReady s ↔ machine.Reach s ∧ s.ledger.bad = [] := by
  refine Machine.via_iff ?_ fun s a s' hr hs => ((reach_inv hr).step hs).1
  intro s ⟨_, _, _, _, _, _, _, hl⟩
  rw [hl]
  rfl

/-- At the start of the program. -/
def initState : State where
  hw := Hw.initState
  buffer1 := noBuffer
  buffer2 := noBuffer
  buffer3 := noBuffer
  bufferSize := 0
  inSession := false
  ledger := .empty

/-- What the kernel gives for a buffer when nothing fails. -/
def answer (n : Nat) : Answer := ⟨UInt32.ofNat n, UInt32.ofNat (n + 60), some (n + 10), some (0x1000000 * n)⟩

/-- All that was obtained for these answers, and a picture 16 columns wide. -/
def releasedTwice : List Resource :=
  [.mapping 0x1000000 768, .mapping 0x2000000 768, .mapping 0x3000000 768, .fd 11, .fd 12, .fd 13,
    .framebuffer 61, .gem 1, .framebuffer 62, .gem 2, .framebuffer 63, .gem 3]

/-- A session with a frame releases everything once, and the next one, without a
frame, all of it again. -/
theorem not_display_releases : ∃ s, machine.Reach s ∧ s.ledger.bad = releasedTwice := by
  obtain ⟨s, hs, hp⟩ := Machine.reach_of_exec (M := machine) (s := initState)
    [.hwInit, .frame (Hw.pictureFrame 16 2) (answer 1) (answer 2) (answer 3), .hwClose, .hwInit, .hwClose]
    (fun s => s.ledger.bad = releasedTwice) ⟨rfl, rfl, rfl, rfl, rfl, rfl, rfl, rfl⟩ (by decide +kernel)
  exact ⟨s, hs, of_decide_eq_true hp⟩

end Camview.Release
