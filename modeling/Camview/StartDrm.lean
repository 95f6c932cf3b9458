/-
`start_drm` of `display.c`: it goes through the connectors, the encoders, the CRTCs and the
planes of the device, sets the mode of the composite output and turns off what the planes
show.

`start_drm`: it comes to its end exactly if no call answers `NULL` and every composite and
HDMI connector has a mode, as one without a plug may not; what it asks of the driver then
is for the last composite connector, and it keeps the CRTCs. `planes_off`: with the
sessions after it, every plane it has turned off, or which was off, is off whenever there is
no session. It does not check whether a plane is turned off.
-/
import Camview.Framebuffers
import Camview.Ledger

namespace Camview.Drm

def drmModeConnectorComposite : UInt32 := 5
def drmModeConnectorHdmia : UInt32 := 11

/-- `drmModeConnector`, as far as it is looked at, over the modes there are. -/
structure DrmModeConnector (M : Type) where
  connectorId : UInt32
  connectorType : UInt32
  encoderId : UInt32
  modes : List M
deriving DecidableEq

structure DrmModeEncoder where
  encoderId : UInt32
  crtcId : UInt32
deriving DecidableEq

structure DrmModeCrtc where
  crtcId : UInt32
  bufferId : UInt32
deriving DecidableEq

structure DrmModePlane where
  planeId : UInt32
  fbId : UInt32
deriving DecidableEq

/-- What the driver answers, `none` for `NULL`. A CRTC is asked for again after its mode
was set. -/
structure Answers (M : Type) where
  version : Bool
  resources : Bool
  connectors : List (Option (DrmModeConnector M))
  encoders : List (Option DrmModeEncoder)
  crtcs : List (Option DrmModeCrtc × Option DrmModeCrtc)
  planeResources : Bool
  planes : List (Option DrmModePlane)

/-- What is allocated, each by a call of its own. -/
inductive Resource
  | version
  | resources
  | connector (call : Nat)
  | encoder (call : Nat)
  | crtc (call : Nat)
  | crtcAgain (call : Nat)
  | planeResources
  | plane (call : Nat)
deriving DecidableEq, Repr

/-- A call that changes something. -/
inductive Call (M : Type)
  /-- `mode` is `none` for a variable that nothing was copied to. -/
  | setCrtc (crtcId bufferId connectorId : UInt32) (mode : Option M)
  /-- to no CRTC and no framebuffer -/
  | setPlane (planeId : UInt32)
deriving DecidableEq, Repr

/-- `composite_connector_id`, `composite_encoder_id`, `composite_crtc_id` and
`composite_mode`, or those of `hdmi`. -/
structure Output (M : Type) where
  connectorId : UInt32
  encoderId : UInt32
  crtcId : UInt32
  mode : Option M

/-- `crtcs` is with what was allocated for each. -/
structure State (M : Type) where
  composite : Output M
  hdmi : Output M
  crtcs : List (Resource × DrmModeCrtc)
  calls : List (Call M)
  ledger : Ledger Resource

variable {M : Type}

/-! ## start_drm -/

/-- `memcpy` of the first mode, of which there must be one, if the connector is of the type. -/
def Output.connector (type : UInt32) (conn : DrmModeConnector M) (o : Output M) : Option (Output M) :=
  if conn.connectorType = type then
    match conn.modes with
    | [] => none
    | mode :: _ => some { o with connectorId := conn.connectorId, encoderId := conn.encoderId, mode := some mode }
  else some o

def Output.encoder (enc : DrmModeEncoder) (o : Output M) : Output M :=
  if enc.encoderId = o.encoderId then { o with crtcId := enc.crtcId } else o

/-- The body of the loop over the connectors. -/
def visitConnector (s : State M) : Option (DrmModeConnector M) × Nat → Option (State M)
  | (none, _) => none
  | (some conn, call) => do
    let s := { s with ledger := s.ledger.obtain [.connector call] }
    let composite ← s.composite.connector drmModeConnectorComposite conn
    let hdmi ← s.hdmi.connector drmModeConnectorHdmia conn
    pure { s with composite, hdmi, ledger := s.ledger.release (.connector call) }

/-- The body of the loop over the encoders. -/
def visitEncoder (s : State M) : Option DrmModeEncoder × Nat → Option (State M)
  | (none, _) => none
  | (some enc, call) =>
    let s := { s with ledger := s.ledger.obtain [.encoder call] }
    some { s with
      composite := s.composite.encoder enc
      hdmi := s.hdmi.encoder enc
      ledger := s.ledger.release (.encoder call) }

/-- The body of the loop over the CRTCs. -/
def visitCrtc (s : State M) : (Option DrmModeCrtc × Option DrmModeCrtc) × Nat → Option (State M)
  | ((none, _), _) => none
  | ((some crtc, again), call) =>
    let s := { s with ledger := s.ledger.obtain [.crtc call] }
    if crtc.crtcId = s.composite.crtcId then
      again.map fun again => { s with
        calls := s.calls ++
          [.setCrtc s.composite.crtcId crtc.bufferId s.composite.connectorId s.composite.mode]
        ledger := (s.ledger.release (.crtc call)).obtain [.crtcAgain call]
        crtcs := s.crtcs ++ [(.crtcAgain call, again)] }
    else some { s with crtcs := s.crtcs ++ [(.crtc call, crtc)] }

/-- The body of the loop over the planes. -/
def visitPlane (s : State M) : Option DrmModePlane × Nat → State M
  | (none, _) => s
  | (some plane, call) =>
    let s := { s with ledger := s.ledger.obtain [.plane call] }
    { s with
      calls := s.calls ++ if plane.fbId ≠ 0 then [.setPlane plane.planeId] else []
      ledger := s.ledger.release (.plane call) }

def State.start : State M := ⟨⟨0, 0, 0, none⟩, ⟨0, 0, 0, none⟩, [], [], .empty⟩

/-- `start_drm`; `none` when a `NULL` is looked at. -/
def startDrm (A : Answers M) : Option (State M) :=
  if !A.version then none
  else if !A.resources then none
  else do
    let s := { State.start with ledger := Ledger.empty.obtain [.version, .resources] }
    let s ← A.connectors.zipIdx.foldlM visitConnector s
    let s ← A.encoders.zipIdx.foldlM visitEncoder s
    let s ← A.crtcs.zipIdx.foldlM visitCrtc s
    let s := { s with ledger := s.ledger.release .resources }
    if !A.planeResources then none
    else
      let s := { s with ledger := s.ledger.obtain [.planeResources] }
      pure (A.planes.zipIdx.foldl visitPlane s)

/-- What `stop_drm` frees of it: the CRTCs, if there was a session with a display. -/
def stopDrm (newPlanes : Bool) (s : State M) : State M :=
  if newPlanes then { s with ledger := s.ledger.releaseAll (s.crtcs.map Prod.fst) } else s

/-! ## The connectors -/

/-- The connector can be looked at. -/
def ConnectorOk (c : Option (DrmModeConnector M)) : Prop :=
  ∃ conn, c = some conn ∧
    (conn.connectorType = drmModeConnectorComposite ∨ conn.connectorType = drmModeConnectorHdmia → conn.modes ≠ [])

/-- The variables of an output after these connectors: those of the last one of the type. -/
def Output.connected (type : UInt32) (conns : List (DrmModeConnector M)) (o : Output M) : Output M :=
  match lastWith DrmModeConnector.connectorType type conns with
  | none => o
  | some conn => { o with connectorId := conn.connectorId, encoderId := conn.encoderId, mode := conn.modes.head? }

theorem Output.connected_cons (type : UInt32) (conn : DrmModeConnector M) (conns : List (DrmModeConnector M))
    (o : Output M) : o.connected type (conn :: conns) = (o.connected type [conn]).connected type conns := by
  unfold Output.connected
  rw [lastWith_cons, lastWith_cons]
  cases lastWith DrmModeConnector.connectorType type conns with
  | none => rfl
  | some c =>
    rw [Option.some_or]
    by_cases h : conn.connectorType = type
    · simp [h, lastWith]
    · simp [h, lastWith]

theorem Output.connector_eq_some {type : UInt32} {conn : DrmModeConnector M} {o o' : Output M} :
    o.connector type conn = some o' ↔ (conn.connectorType = type → conn.modes ≠ []) ∧ o' = o.connected type [conn] := by
  unfold Output.connector Output.connected
  rw [lastWith_cons]
  by_cases h : conn.connectorType = type
  · cases hm : conn.modes with
    | nil => simp [h, lastWith]
    | cons mode modes => simp [h, hm, lastWith, eq_comm]
  · simp [h, lastWith, eq_comm]

theorem visitConnector_eq_some {s s' : State M} {c : Option (DrmModeConnector M)} {call : Nat} :
    visitConnector s (c, call) = some s' ↔ ConnectorOk c ∧ s' = { s with
      composite := s.composite.connected drmModeConnectorComposite c.toList
      hdmi := s.hdmi.connected drmModeConnectorHdmia c.toList } := by
  cases c with
  | none =>
    refine iff_of_false (by simp [visitConnector]) ?_
    rintro ⟨⟨conn, hc, -⟩, -⟩
    cases hc
  | some conn =>
    simp only [visitConnector, Option.bind_eq_bind, Option.bind_eq_some_iff, Output.connector_eq_some,
      Ledger.obtain_release, Option.pure_def, Option.some.injEq]
    constructor
    · rintro ⟨composite, ⟨hc, rfl⟩, hdmi, ⟨hh, rfl⟩, rfl⟩
      exact ⟨⟨conn, rfl, fun h => h.elim hc hh⟩, rfl⟩
    · rintro ⟨⟨conn', hc, hok⟩, rfl⟩
      cases hc
      exact ⟨_, ⟨fun h => hok (.inl h), rfl⟩, _, ⟨fun h => hok (.inr h), rfl⟩, rfl⟩

/-- The loop over the connectors. -/
theorem foldlM_visitConnector {s s' : State M} {l : List (Option (DrmModeConnector M) × Nat)} :
    l.foldlM visitConnector s = some s' ↔ (∀ c ∈ l, ConnectorOk c.1) ∧ s' = { s with
      composite := s.composite.connected drmModeConnectorComposite (l.filterMap Prod.fst)
      hdmi := s.hdmi.connected drmModeConnectorHdmia (l.filterMap Prod.fst) } := by
  induction l generalizing s with
  | nil => simp [Output.connected, lastWith, eq_comm]
  | cons c l ih =>
    obtain ⟨c, call⟩ := c
    rw [List.foldlM_cons, Option.bind_eq_bind, Option.bind_eq_some_iff, List.forall_mem_cons, and_assoc]
    simp only [visitConnector_eq_some, ih]
    have hcons (hc : ConnectorOk c) (type : UInt32) (o : Output M) :
        o.connected type (((c, call) :: l).filterMap Prod.fst) =
          (o.connected type c.toList).connected type (l.filterMap Prod.fst) := by
      obtain ⟨conn, rfl, -⟩ := hc
      exact o.connected_cons type conn _
    constructor
    · rintro ⟨t, ⟨hc, rfl⟩, hl, rfl⟩
      refine ⟨hc, hl, ?_⟩
      rw [hcons hc, hcons hc]
    · rintro ⟨hc, hl, rfl⟩
      refine ⟨_, ⟨hc, rfl⟩, hl, ?_⟩
      rw [hcons hc, hcons hc]

/-! ## The encoders -/

/-- The variables of an output after these encoders: the CRTC of the last one that is its own. -/
def Output.encoded (encs : List DrmModeEncoder) (o : Output M) : Output M :=
  { o with crtcId := ((lastWith DrmModeEncoder.encoderId o.encoderId encs).map DrmModeEncoder.crtcId).getD o.crtcId }

theorem Output.encoded_cons (enc : DrmModeEncoder) (encs : List DrmModeEncoder) (o : Output M) :
    o.encoded (enc :: encs) = (o.encoder enc).encoded encs := by
  have hid : (o.encoder enc).encoderId = o.encoderId := by
    unfold Output.encoder
    split <;> rfl
  unfold Output.encoded
  rw [hid, lastWith_cons]
  unfold Output.encoder
  by_cases h : enc.encoderId = o.encoderId
  · rw [if_pos h, if_pos h]
    cases lastWith DrmModeEncoder.encoderId o.encoderId encs <;> rfl
  · rw [if_neg h, if_neg h, Option.or_none]

/-- The loop over the encoders. -/
theorem foldlM_visitEncoder {s s' : State M} {l : List (Option DrmModeEncoder × Nat)} :
    l.foldlM visitEncoder s = some s' ↔ (∀ c ∈ l, c.1.isSome = true) ∧ s' = { s with
      composite := s.composite.encoded (l.filterMap Prod.fst)
      hdmi := s.hdmi.encoded (l.filterMap Prod.fst) } := by
  induction l generalizing s with
  | nil =>
    refine ⟨fun h => ⟨?_, (Option.some.inj h).symm⟩, fun h => congrArg some h.2.symm⟩
    exact fun _ hc => absurd hc List.not_mem_nil
  | cons c l ih =>
    obtain ⟨c, call⟩ := c
    rw [List.foldlM_cons, List.forall_mem_cons]
    cases c with
    | none => exact iff_of_false (by simp [visitEncoder]) fun h => absurd h.1.1 (by simp)
    | some enc =>
      simp only [visitEncoder, Option.bind_eq_bind, Option.bind_some, ih, Ledger.obtain_release, Option.isSome_some,
        true_and]
      have hcons : ((some enc, call) :: l).filterMap Prod.fst = enc :: l.filterMap Prod.fst := rfl
      rw [hcons, Output.encoded_cons, Output.encoded_cons]

/-! ## The CRTCs -/

/-- The CRTC can be looked at, when the CRTC of the composite output is `id`. -/
def CrtcOk (id : UInt32) (c : Option DrmModeCrtc × Option DrmModeCrtc) : Prop :=
  ∃ crtc, c.1 = some crtc ∧ (crtc.crtcId = id → c.2.isSome = true)

/-- What is kept of a CRTC. -/
def kept (id : UInt32) : (Option DrmModeCrtc × Option DrmModeCrtc) × Nat → Option (Resource × DrmModeCrtc)
  | ((none, _), _) => none
  | ((some crtc, again), call) =>
    if crtc.crtcId = id then again.map ((.crtcAgain call, ·)) else some (.crtc call, crtc)

/-- The call that sets its mode. -/
def setMode (o : Output M) : (Option DrmModeCrtc × Option DrmModeCrtc) × Nat → Option (Call M)
  | ((none, _), _) => none
  | ((some crtc, _), _) =>
    if crtc.crtcId = o.crtcId then some (.setCrtc o.crtcId crtc.bufferId o.connectorId o.mode) else none

theorem visitCrtc_eq_some {s s' : State M} {c : (Option DrmModeCrtc × Option DrmModeCrtc) × Nat} :
    visitCrtc s c = some s' ↔ CrtcOk s.composite.crtcId c.1 ∧ s' = { s with
      calls := s.calls ++ (setMode s.composite c).toList
      crtcs := s.crtcs ++ (kept s.composite.crtcId c).toList
      ledger := s.ledger.obtain ((kept s.composite.crtcId c).toList.map Prod.fst) } := by
  obtain ⟨⟨first, again⟩, call⟩ := c
  unfold CrtcOk
  cases first with
  | none => exact iff_of_false (by simp [visitCrtc]) (by simp)
  | some crtc =>
    by_cases h : crtc.crtcId = s.composite.crtcId
    · cases again with
      | none => exact iff_of_false (by simp [visitCrtc, h]) (by simp [h])
      | some crtc' =>
        simp only [visitCrtc, kept, setMode, h, if_true, Option.map_some, Ledger.obtain_release]
        exact ⟨fun e => ⟨⟨crtc, rfl, fun _ => rfl⟩, (Option.some.inj e).symm⟩, fun e => congrArg some e.2.symm⟩
    · simp only [visitCrtc, kept, setMode, h, if_false]
      refine ⟨fun e => ⟨⟨crtc, rfl, fun hid => absurd hid h⟩, ?_⟩, fun e => ?_⟩
      · rw [← Option.some.inj e]
        simp
      · rw [e.2]
        simp

/-- The loop over the CRTCs. -/
theorem foldlM_visitCrtc {s s' : State M} {l : List ((Option DrmModeCrtc × Option DrmModeCrtc) × Nat)} :
    l.foldlM visitCrtc s = some s' ↔ (∀ c ∈ l, CrtcOk s.composite.crtcId c.1) ∧ s' = { s with
      calls := s.calls ++ l.filterMap (setMode s.composite)
      crtcs := s.crtcs ++ l.filterMap (kept s.composite.crtcId)
      ledger := s.ledger.obtain ((l.filterMap (kept s.composite.crtcId)).map Prod.fst) } := by
  induction l generalizing s with
  | nil =>
    simp only [List.filterMap_nil, List.append_nil, List.map_nil, Ledger.obtain_nil]
    refine ⟨fun h => ⟨?_, (Option.some.inj h).symm⟩, fun h => congrArg some h.2.symm⟩
    exact fun _ hc => absurd hc List.not_mem_nil
  | cons c l ih =>
    rw [List.foldlM_cons, Option.bind_eq_bind, Option.bind_eq_some_iff, List.forall_mem_cons, and_assoc]
    simp only [visitCrtc_eq_some, ih]
    have hcons {β : Type} (f : (Option DrmModeCrtc × Option DrmModeCrtc) × Nat → Option β) :
        (c :: l).filterMap f = (f c).toList ++ l.filterMap f := by
      rw [List.filterMap_cons]
      cases f c <;> rfl
    rw [hcons, hcons, List.map_append, Ledger.obtain_append]
    constructor
    · rintro ⟨t, ⟨hc, rfl⟩, hl, rfl⟩
      exact ⟨hc, hl, by simp only [List.append_assoc]⟩
    · rintro ⟨hc, hl, rfl⟩
      exact ⟨_, ⟨hc, rfl⟩, hl, by simp only [List.append_assoc]⟩

/-! ## The planes -/

/-- The call that turns a plane off. -/
def turnOff : Option DrmModePlane × Nat → Option (Call M)
  | (none, _) => none
  | (some plane, _) => if plane.fbId ≠ 0 then some (.setPlane plane.planeId) else none

/-- The loop over the planes. -/
theorem foldl_visitPlane {s : State M} {l : List (Option DrmModePlane × Nat)} :
    l.foldl visitPlane s = { s with calls := s.calls ++ l.filterMap turnOff } := by
  induction l generalizing s with
  | nil => simp
  | cons c l ih =>
    obtain ⟨c, call⟩ := c
    rw [List.foldl_cons, ih]
    cases c with
    | none => rfl
    | some plane =>
      by_cases h : plane.fbId = 0
      · simp [visitPlane, turnOff, h, Ledger.obtain_release]
      · simp [visitPlane, turnOff, h, Ledger.obtain_release]

/-! ## The whole -/

theorem filterMap_zipIdx_fst {α : Type} (l : List (Option α)) :
    l.zipIdx.filterMap Prod.fst = l.filterMap fun e => e := by
  conv_rhs => rw [← List.zipIdx_map_fst 0 l, List.filterMap_map]
  rfl

/-- The connector the composite output is taken from. -/
def Answers.compositeConnector (A : Answers M) : Option (DrmModeConnector M) :=
  lastWith DrmModeConnector.connectorType drmModeConnectorComposite (A.connectors.filterMap fun c => c)

/-- The variables of the composite output in the end. -/
def Answers.composite (A : Answers M) : Output M :=
  ((State.start.composite.connected drmModeConnectorComposite (A.connectors.filterMap fun c => c)).encoded
    (A.encoders.filterMap fun c => c))

/-- The driver answers, and each composite and HDMI connector has a mode. -/
structure Answered (A : Answers M) : Prop where
  version : A.version = true
  resources : A.resources = true
  connectors : ∀ c ∈ A.connectors, ConnectorOk c
  encoders : ∀ c ∈ A.encoders, c.isSome = true
  crtcs : ∀ c ∈ A.crtcs, CrtcOk A.composite.crtcId c
  planeResources : A.planeResources = true

/-- What `start_drm` leaves: it has asked for a mode of the composite output, on the CRTCs
it is on, and turned off the planes with a framebuffer. The CRTCs are kept until
`stop_drm`, and of the rest all but two structures were freed. -/
structure Started (A : Answers M) (s : State M) : Prop where
  crtcs : s.crtcs = A.crtcs.zipIdx.filterMap (kept A.composite.crtcId)
  count : s.crtcs.length = A.crtcs.length
  calls : s.calls = A.crtcs.zipIdx.filterMap (setMode A.composite) ++ A.planes.zipIdx.filterMap turnOff
  mode : ∀ crtcId bufferId connectorId mode, .setCrtc crtcId bufferId connectorId mode ∈ s.calls →
    ∃ conn m, A.compositeConnector = some conn ∧ connectorId = conn.connectorId ∧ conn.modes.head? = some m ∧
      mode = some m
  held : s.ledger.held = .version ::ₘ .planeResources ::ₘ (s.crtcs.map Prod.fst : Multiset Resource)
  bad : s.ledger.bad = []
  stopped : (stopDrm true s).ledger.held = {.version, .planeResources} ∧ (stopDrm true s).ledger.bad = []

theorem mem_zipIdx_fst {α : Type} {l : List α} {p : α → Prop} : (∀ c ∈ l.zipIdx, p c.1) ↔ ∀ a ∈ l, p a := by
  have h := List.forall_mem_map (l := l.zipIdx) (f := Prod.fst) (P := p)
  rw [List.zipIdx_map_fst] at h
  exact h.symm

theorem startDrm_eq_some {A : Answers M} {s : State M} : startDrm A = some s ↔ Answered A ∧ s =
    { composite := A.composite
      hdmi := (State.start.hdmi.connected drmModeConnectorHdmia (A.connectors.filterMap fun c => c)).encoded
        (A.encoders.filterMap fun c => c)
      crtcs := A.crtcs.zipIdx.filterMap (kept A.composite.crtcId)
      calls := A.crtcs.zipIdx.filterMap (setMode A.composite) ++ A.planes.zipIdx.filterMap turnOff
      ledger := (((Ledger.empty.obtain [.version, .resources]).obtain
        ((A.crtcs.zipIdx.filterMap (kept A.composite.crtcId)).map Prod.fst)).release .resources).obtain
          [.planeResources] } := by
  unfold startDrm
  constructor
  · intro h
    simp only [Option.ite_none_left_eq_some, Bool.not_eq_true', Bool.not_eq_false, Option.bind_eq_bind,
      Option.bind_eq_some_iff, foldlM_visitConnector, foldlM_visitEncoder, foldlM_visitCrtc, Option.pure_def,
      Option.some.injEq, filterMap_zipIdx_fst] at h
    obtain ⟨hv, hr, _, ⟨hconn, rfl⟩, _, ⟨henc, rfl⟩, _, ⟨hcrtc, rfl⟩, hp, rfl⟩ := h
    refine ⟨⟨hv, hr, mem_zipIdx_fst.1 hconn, mem_zipIdx_fst.1 henc, mem_zipIdx_fst.1 hcrtc, hp⟩, ?_⟩
    rw [foldl_visitPlane]
    rfl
  · rintro ⟨⟨hv, hr, hconn, henc, hcrtc, hp⟩, rfl⟩
    simp only [Option.ite_none_left_eq_some, Bool.not_eq_true', Bool.not_eq_false, Option.bind_eq_bind,
      Option.bind_eq_some_iff, foldlM_visitConnector, foldlM_visitEncoder, foldlM_visitCrtc, Option.pure_def,
      Option.some.injEq, filterMap_zipIdx_fst]
    refine ⟨hv, hr, _, ⟨mem_zipIdx_fst.2 hconn, rfl⟩, _, ⟨mem_zipIdx_fst.2 henc, rfl⟩, _,
      ⟨mem_zipIdx_fst.2 hcrtc, rfl⟩, hp, ?_⟩
    rw [foldl_visitPlane]
    rfl

theorem length_kept {id : UInt32} {l : List (Option DrmModeCrtc × Option DrmModeCrtc)} (h : ∀ c ∈ l, CrtcOk id c) :
    (l.zipIdx.filterMap (kept id)).length = l.length := by
  rw [← List.length_zipIdx (l := l) (i := 0), List.filterMap_length_eq_length]
  rintro ⟨⟨first, again⟩, call⟩ hc
  obtain ⟨crtc, rfl, hagain⟩ := (mem_zipIdx_fst (p := CrtcOk id)).2 h _ hc
  dsimp only [kept]
  split
  · next hid => simpa using hagain hid
  · rfl

/-- The CRTC of the composite output is 0, which no CRTC has for an id, if there is no
such connector: then no mode is set. -/
theorem Answers.crtcId_of_none {A : Answers M} (henc : ∀ enc, some enc ∈ A.encoders → enc.encoderId ≠ 0)
    (h : A.compositeConnector = none) : A.composite.crtcId = 0 := by
  unfold Answers.compositeConnector at h
  unfold Answers.composite Output.connected Output.encoded
  rw [h]
  dsimp only [State.start]
  rw [lastWith_eq_none fun enc hmem => ?_]
  · rfl
  · obtain ⟨c, hc, rfl⟩ := List.mem_filterMap.1 hmem
    exact henc enc hc

theorem Answers.composite_of_some {A : Answers M} {conn : DrmModeConnector M} (h : A.compositeConnector = some conn) :
    A.composite.connectorId = conn.connectorId ∧ A.composite.mode = conn.modes.head? := by
  unfold Answers.compositeConnector at h
  unfold Answers.composite Output.connected Output.encoded
  rw [h]
  exact ⟨rfl, rfl⟩

theorem mem_setMode {A : Answers M} (hA : Answered A) (henc : ∀ enc, some enc ∈ A.encoders → enc.encoderId ≠ 0)
    (hcrtc : ∀ crtc again, (some crtc, again) ∈ A.crtcs → crtc.crtcId ≠ 0) {crtcId bufferId connectorId : UInt32}
    {mode : Option M} (h : .setCrtc crtcId bufferId connectorId mode ∈ A.crtcs.zipIdx.filterMap (setMode A.composite)) :
    ∃ conn m, A.compositeConnector = some conn ∧ connectorId = conn.connectorId ∧ conn.modes.head? = some m ∧
      mode = some m := by
  obtain ⟨⟨⟨first, again⟩, call⟩, hc, hset⟩ := List.mem_filterMap.1 h
  cases first with
  | none => cases hset
  | some crtc =>
    simp only [setMode, Option.ite_none_right_eq_some, Option.some.injEq, Call.setCrtc.injEq] at hset
    obtain ⟨hid, -, -, rfl, rfl⟩ := hset
    have hne : crtc.crtcId ≠ 0 := hcrtc crtc again (List.fst_mem_of_mem_zipIdx hc)
    cases hlast : A.compositeConnector with
    | none => exact absurd (hid.trans (A.crtcId_of_none henc hlast)) hne
    | some conn =>
      obtain ⟨hconn, hmode⟩ := Answers.composite_of_some hlast
      obtain ⟨hmem, htype⟩ := lastWith_mem hlast
      obtain ⟨c, hmem, rfl⟩ := List.mem_filterMap.1 hmem
      obtain ⟨conn', he, hok⟩ := hA.connectors _ hmem
      cases he
      obtain ⟨m, hm⟩ := Option.isSome_iff_exists.1 (List.isSome_head?.2 (hok (.inl htype)))
      exact ⟨conn, m, rfl, hconn, hm, hmode.trans hm⟩

/-- The version and the list of the planes are not freed. -/
theorem ledger_started (rs : List Resource) : (((Ledger.empty.obtain [.version, .resources]).obtain rs).release
    .resources).obtain [.planeResources] = ⟨.version ::ₘ .planeResources ::ₘ (rs : Multiset Resource), []⟩ := by
  have hheld : ((Ledger.empty.obtain [.version, .resources]).obtain rs).held =
      .resources ::ₘ .version ::ₘ (rs : Multiset Resource) := by
    rw [← Ledger.obtain_append, Ledger.obtain_held, Multiset.cons_coe, Multiset.cons_coe]
    show (0 : Multiset Resource) + _ = _
    rw [Multiset.zero_add]
    exact Multiset.coe_eq_coe.2 (.swap ..)
  unfold Ledger.release
  rw [hheld, Multiset.erase_cons_head, if_pos (Multiset.mem_cons_self ..)]
  show (⟨_, []⟩ : Ledger Resource) = _
  rw [Multiset.coe_singleton, Multiset.add_comm, Multiset.singleton_add, Multiset.cons_swap]

theorem ledger_stopped {L : Ledger Resource} {rs : List Resource}
    (hheld : L.held = .version ::ₘ .planeResources ::ₘ (rs : Multiset Resource)) (hbad : L.bad = []) :
    (L.releaseAll rs).held = {.version, .planeResources} ∧ (L.releaseAll rs).bad = [] := by
  have hsplit : L.held = {.version, .planeResources} + (rs : Multiset Resource) := by
    rw [hheld]
    rfl
  rw [Ledger.releaseAll_held, Ledger.releaseAll_bad, hsplit]
  exact ⟨Multiset.add_sub_cancel_right, hbad, Multiset.le_add_left ..⟩

/-- **Starting the display**, on every device whose ids are not 0: when `start_drm` comes to
its end, and what it has done then. -/
theorem start_drm {A : Answers M} (henc : ∀ enc, some enc ∈ A.encoders → enc.encoderId ≠ 0)
    (hcrtc : ∀ crtc again, (some crtc, again) ∈ A.crtcs → crtc.crtcId ≠ 0) :
    ((startDrm A).isSome = true ↔ Answered A) ∧ ∀ s, startDrm A = some s → Started A s := by
  constructor
  · rw [Option.isSome_iff_exists]
    simp only [startDrm_eq_some, exists_and_left, exists_eq, and_true]
  · intro s hs
    obtain ⟨hA, rfl⟩ := startDrm_eq_some.1 hs
    rw [ledger_started]
    refine ⟨rfl, length_kept hA.crtcs, rfl, ?_, rfl, rfl, ledger_stopped rfl rfl⟩
    intro crtcId bufferId connectorId mode hmem
    rcases List.mem_append.1 hmem with hmem | hmem
    · exact mem_setMode hA henc hcrtc hmem
    · obtain ⟨⟨plane, call⟩, -, hoff⟩ := List.mem_filterMap.1 hmem
      cases plane with
      | none => cases hoff
      | some plane => simp [turnOff] at hoff

/-- An HDMI and a composite output. Plane 5 shows a console. -/
def device : Answers Nat where
  version := true
  resources := true
  connectors := [some ⟨30, 11, 40, [1080, 720]⟩, some ⟨31, 5, 41, [576]⟩]
  encoders := [some ⟨40, 50⟩, some ⟨41, 51⟩]
  crtcs := [(some ⟨50, 60⟩, none), (some ⟨51, 61⟩, some ⟨51, 61⟩)]
  planeResources := true
  planes := [some ⟨5, 9⟩, none, some ⟨6, 0⟩]

theorem start_drm_device : ∃ s, startDrm device = some s ∧ Started device s ∧
    s.calls = [.setCrtc 51 61 31 (some 576), .setPlane 5] := by
  refine ⟨_, rfl, (start_drm ?_ ?_).2 _ rfl, rfl⟩
  · intro enc henc
    simp only [device, List.mem_cons, Option.some.injEq, List.not_mem_nil, or_false] at henc
    rcases henc with rfl | rfl <;> decide
  · intro crtc again hcrtc
    simp only [device, List.mem_cons, Prod.mk.injEq, Option.some.injEq, List.not_mem_nil, or_false] at hcrtc
    rcases hcrtc with ⟨rfl, -⟩ | ⟨rfl, -⟩ <;> decide

/-- Nothing is plugged into the HDMI output. -/
example : startDrm { device with connectors := [some ⟨30, 11, 0, []⟩, some ⟨31, 5, 41, [576]⟩] } = none := rfl

/-! ## To the end of the program -/

/-- What the planes show after a call, which succeeds if it is for a plane in `off`. -/
def Call.after (off : UInt32 → Bool) (shows : UInt32 → UInt32) : Call M → UInt32 → UInt32
  | .setPlane planeId => if off planeId then Function.update shows planeId 0 else shows
  | .setCrtc .. => shows

def afterCalls (off : UInt32 → Bool) (calls : List (Call M)) (shows : UInt32 → UInt32) : UInt32 → UInt32 :=
  calls.foldl (Call.after off) shows

variable {off : UInt32 → Bool}

theorem Call.after_eq_zero {shows : UInt32 → UInt32} {plane : UInt32} (call : Call M) :
    call.after off shows plane = 0 ↔ shows plane = 0 ∨ call = .setPlane plane ∧ off plane = true := by
  cases call with
  | setCrtc => simp [Call.after]
  | setPlane planeId =>
    dsimp only [Call.after]
    by_cases he : plane = planeId
    · subst he
      cases ho : off plane
      · simp
      · rw [if_pos rfl, Function.update_self]
        simp
    · have hne : Call.setPlane planeId ≠ (.setPlane plane : Call M) := fun h => he (Call.setPlane.inj h).symm
      split
      · rw [Function.update_of_ne he]
        simp [hne]
      · simp [hne]

/-- A plane is off that was, or that a call for it has turned off. -/
theorem afterCalls_eq_zero {shows : UInt32 → UInt32} {plane : UInt32} (calls : List (Call M)) :
    afterCalls off calls shows plane = 0 ↔ shows plane = 0 ∨ .setPlane plane ∈ calls ∧ off plane = true := by
  unfold afterCalls
  induction calls generalizing shows with
  | nil => simp
  | cons call calls ih =>
    rw [List.foldl_cons, ih, Call.after_eq_zero, List.mem_cons, or_and_right, or_assoc, eq_comm (a := call)]

variable {F β : Type} [DecidableEq β] {A : Answers M} {s₀ : State M}

/-- The planes are off when the first session begins. -/
theorem planes_start {shows : UInt32 → UInt32} (h : startDrm A = some s₀) {plane : DrmModePlane}
    (hplane : some plane ∈ A.planes) (hshows : shows plane.planeId = plane.fbId)
    (hoff : off plane.planeId = true ∨ plane.fbId = 0) : afterCalls off s₀.calls shows plane.planeId = 0 := by
  rw [afterCalls_eq_zero, hshows]
  by_cases hfb : plane.fbId = 0
  · exact .inl hfb
  · obtain ⟨-, rfl⟩ := startDrm_eq_some.1 h
    obtain ⟨i, hi⟩ := List.mem_iff_getElem?.1 hplane
    refine .inr ⟨?_, hoff.resolve_right hfb⟩
    refine List.mem_append_right _ (List.mem_filterMap.2 ⟨(some plane, i), ?_, if_pos hfb⟩)
    exact List.mk_mem_zipIdx_iff_getElem?.2 hi

/-- **The planes are off between the sessions.** From `start_drm` on, over any number of
sessions, a plane it has turned off, or which was off, is off whenever there is no session,
so also when the program ends. -/
theorem planes_off {shows : UInt32 → UInt32} (h : startDrm A = some s₀) (h2 : 2 ≤ A.crtcs.length)
    (hshows : ∀ plane, some plane ∈ A.planes → shows plane.planeId = plane.fbId) {s : Framebuffers.State F β}
    (hs : (Framebuffers.machine A.crtcs.length (afterCalls off s₀.calls shows)).Via
      (Framebuffers.TurnsOff A.crtcs.length) s)
    (hin : s.inSession = false) {plane : DrmModePlane} (hplane : some plane ∈ A.planes)
    (hoff : off plane.planeId = true ∨ plane.fbId = 0) : s.device.shows plane.planeId = 0 := by
  rcases (Framebuffers.inv_via h2 hs).shows_of_closed hin plane.planeId with h0 | hold
  · exact h0
  · exact hold.trans (planes_start h hplane (hshows plane hplane) hoff)

/-- What the planes of the device show. -/
def deviceShows (plane : UInt32) : UInt32 := if plane = 5 then 9 else 0

/-- And after `start_drm`. -/
def started : UInt32 → UInt32 :=
  afterCalls (fun _ => true) ([.setCrtc 51 61 31 (some 576), .setPlane 5] : List (Call Nat)) deviceShows

theorem planes_off_device : ∃ s₀ s, startDrm device = some s₀ ∧
    (Framebuffers.machine 2 (afterCalls (fun _ => true) s₀.calls deviceShows)).execIf (Framebuffers.TurnsOff 2)
      { Framebuffers.startState with device := ⟨[5, 6], [], afterCalls (fun _ => true) s₀.calls deviceShows⟩ }
      (Framebuffers.toPicture ++ Framebuffers.toEnd fun _ => true) = some s ∧ s.device.shows 5 = 0 := by
  obtain ⟨s, hs, hp⟩ := Option.map_eq_some_iff.1
    (by decide +kernel : ((Framebuffers.machine 2 started).execIf (Framebuffers.TurnsOff 2)
      { Framebuffers.startState with device := ⟨[5, 6], [], started⟩ }
      (Framebuffers.toPicture ++ Framebuffers.toEnd fun _ => true)).map Framebuffers.State.inSession = some false)
  refine ⟨_, s, rfl, hs, planes_off (A := device) rfl (by decide) (fun plane hplane => ?_)
    (.execIf (.start ⟨rfl, rfl, rfl, rfl, rfl, rfl, rfl, rfl⟩) hs) hp
    (show some (⟨5, 9⟩ : DrmModePlane) ∈ device.planes by decide) (.inl rfl)⟩
  simp only [device, List.mem_cons, Option.some.injEq, reduceCtorEq, List.not_mem_nil, or_false, false_or] at hplane
  rcases hplane with rfl | rfl <;> decide

end Camview.Drm
