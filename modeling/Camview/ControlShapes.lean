/-
The shapes of a controls file. `read_controls` walks the document without looking at
the types of what it finds: json-c asserts an array where the length of one is asked
for, and `strcmp` reads the name of a control.

`finishes_normally_iff`: it gets to the end on documents of the shape it expects
(`Walkable`) and no others; on what is no document, and on `null`, it closes the stream
twice.
-/
import Camview.ControlLayout

namespace Camview.ControlFile

variable {δ : Type} {T : ParamTypes}

/-! ## The calls -/

/-- The calls that ask something of what they are given. -/
inductive Use
  | arrayLength (json : Json)
  | arrayGetIdx (json : Json)
  | objectGet (json : Json)
  | strcmp (name : Option CString)

def IsArray (json : Json) : Prop := ∃ items, json = .array items

def IsObject (json : Json) : Prop := ∃ fields, json = .object fields

def ObjectOrNull (json : Json) : Prop := json = .null ∨ IsObject json

/-- What json-c and the C library promise an answer for. -/
def Use.Allowed : Use → Prop
  | .arrayLength json => IsArray json
  | .arrayGetIdx json => IsArray json
  | .objectGet json => ObjectOrNull json
  | .strcmp name => name.isSome = true

/-- The calls of a loop, those of each iteration in the state it starts in. -/
def usesEach {α σ : Type} (uses : α → σ → List Use) (f : α → σ → Option (σ × Bool)) : List α → σ → List Use
  | [], _ => []
  | a :: as, s =>
    uses a s ++
      match f a s with
      | none => []
      | some (s, _) => usesEach uses f as s

/-- `set_control` compares names where `VIDIOC_QUERYCTRL` succeeds. -/
def setControlUses (D : Driver δ) (name : Option CString) (value : Int32) : World δ T → List Use :=
  usesEach (fun id w => if (D.queryctrl w.device id).isSome then [.strcmp name] else [])
    (setControlAt D name value) cids

/-- An iteration of `read_device_controls`. -/
def readDeviceControlUses (D : Driver δ) (J : JsonC) (json ctrl : Json) (w : World δ T) : List Use :=
  [.arrayGetIdx json, .objectGet ctrl, .objectGet ctrl] ++
    setControlUses D ((ctrl.objectGet "ctrlName").getString J) ((ctrl.objectGet "ctrlValue").getInt J) w

/-- `read_device_controls`. -/
def readDeviceControlsUses (D : Driver δ) (J : JsonC) (json : Json) (w : World δ T) : List Use :=
  .arrayLength json ::
    match json with
    | .array items => usesEach (readDeviceControlUses D J json) (readDeviceControl D J) items w
    | _ => []

/-- The reads of a block in `read_display_controls`. -/
def decodeUses {ι : Type} (json : Json) (dec : List (ι × String)) : List Use := dec.map fun _ => .objectGet json

/-- `read_display_controls`. -/
def readDisplayControlsUses (json : Json) : List Use :=
  [.objectGet json, .objectGet json, .objectGet json] ++ decodeUses (json.objectGet "fcc") fccReads ++
    decodeUses (json.objectGet "bws") bwsReads ++ decodeUses (json.objectGet "lti") ltiReads

/-- `read_controls`, with the document. -/
def readControlsUses (D : Driver δ) (J : JsonC) (json : Json) (w : World δ T) : List Use :=
  .objectGet json :: readDeviceControlsUses D J (json.objectGet "device") w ++
    match readDeviceControls D J (json.objectGet "device") w with
    | none => []
    | some _ => .objectGet json :: readDisplayControlsUses (json.objectGet "display")

/-- `read_controls` gets to its end, on the way asking of json-c and `strcmp` only what
they answer, and closing the stream once. -/
structure FinishesNormally (D : Driver δ) (J : JsonC) (io : Stdio) (stack : Params T) (w : World δ T) : Prop where
  returns : (readControls D J io stack w).isSome = true
  uses : ∀ json, (readJson J io w.file).2 = some json → ∀ u ∈ readControlsUses D J json w, u.Allowed
  closes : (readJson J io w.file).1.count .fclose ≤ 1

/-- A document of the shape `read_controls` expects, before a camera in this state: an
entry without a name does no harm to one that answers for no control. -/
structure Walkable (D : Driver δ) (device : δ) (json : Json) : Prop where
  object : IsObject json
  device : ∃ items, json.objectGet "device" = .array items ∧ ∀ ctrl ∈ items, ObjectOrNull ctrl ∧
    (ctrl.objectGet "ctrlName" ≠ .null ∨ ∀ id ∈ cids, D.queryctrl device id = none)
  display : ObjectOrNull (json.objectGet "display")
  blocks : ∀ key ∈ ["fcc", "bws", "lti"], ObjectOrNull ((json.objectGet "display").objectGet key)

/-! ## Walking -/

/-- A loop that keeps `P` goes through if each of its iterations would, in any state
with `P`. -/
theorem usesEach_iff {α σ : Type} {uses : α → σ → List Use} {f : α → σ → Option (σ × Bool)} {P : σ → Prop}
    {C : α → Prop} (hstep : ∀ a s, P s → ((∀ u ∈ uses a s, u.Allowed) ∧ (f a s).isSome = true ↔ C a))
    (hkeep : ∀ a s s' c, P s → f a s = some (s', c) → P s') {as : List α} {s : σ} (hs : P s) :
    (∀ u ∈ usesEach uses f as s, u.Allowed) ∧ (forEach f as s).isSome = true ↔ ∀ a ∈ as, C a := by
  induction as generalizing s with
  | nil => simp [usesEach, forEach]
  | cons a as ih =>
    rw [List.forall_mem_cons, ← hstep a s hs, usesEach, forEach_cons, List.forall_mem_append]
    cases hf : f a s with
    | none => simp
    | some r =>
      obtain ⟨s', c⟩ := r
      rw [← ih (hkeep a s s' c hs hf), Option.bind_some, Option.isSome_map]
      simp only [Option.isSome_some, and_true, and_assoc]

section Walk

variable {D : Driver δ} {J : JsonC} {device : δ}

/-- The camera answers for the same controls in both states. -/
def AnswersAs (D : Driver δ) (device : δ) (w : World δ T) : Prop :=
  ∀ i, D.queryctrl w.device i = none ↔ D.queryctrl device i = none

/-- Setting a control does not change for which controls the camera answers. -/
def StableControls (D : Driver δ) : Prop :=
  ∀ device id value i, D.queryctrl (D.sCtrl device id value) i = none ↔ D.queryctrl device i = none

theorem setControlAt_answers (hD : StableControls D) {name : Option CString} {value : Int32} {id : Nat}
    {w w' : World δ T} {c : Bool} (hw : AnswersAs D device w) (h : setControlAt D name value id w = some (w', c)) :
    AnswersAs D device w' := by
  rcases setControlAt_cases h with h | h
  · rw [h.1]
    exact hw
  · obtain ⟨q, prev, -, -, -, -, -, rfl⟩ := h
    exact fun i => (hD _ _ _ i).trans (hw i)

/-- At one id: without a name, the process ends where the camera answers. -/
theorem setControlAt_goes {name : Option CString} {value : Int32} {id : Nat} {w : World δ T}
    (hw : AnswersAs D device w) :
    (∀ u ∈ if (D.queryctrl w.device id).isSome then [Use.strcmp name] else [], u.Allowed) ∧
        (setControlAt D name value id w).isSome = true ↔
      name.isSome = true ∨ D.queryctrl device id = none := by
  rw [← hw id]
  unfold setControlAt
  cases D.queryctrl w.device id with
  | none => simp
  | some qctrl =>
    cases name with
    | none => simp
    | some name =>
      refine iff_of_true ⟨?_, ?_⟩ (.inl rfl)
      · intro u hu
        rw [Option.isSome_some, if_pos rfl, List.mem_singleton] at hu
        rw [hu]
        rfl
      · dsimp only
        split
        · split
          · rfl
          split
          · rfl
          · rfl
        · rfl

theorem setControl_goes (hD : StableControls D) {name : Option CString} {value : Int32} {w : World δ T}
    (hw : AnswersAs D device w) :
    (∀ u ∈ setControlUses D name value w, u.Allowed) ∧ (setControl D name value w).isSome = true ↔
      name.isSome = true ∨ ∀ id ∈ cids, D.queryctrl device id = none := by
  refine (usesEach_iff (P := AnswersAs D device) (C := fun id => name.isSome = true ∨ D.queryctrl device id = none)
    (fun id w hw => setControlAt_goes hw) (fun id w w' c hw h => setControlAt_answers hD hw h) hw).trans ?_
  constructor
  · intro h
    by_cases hn : name.isSome = true
    · exact .inl hn
    · exact .inr fun id hid => (h id hid).resolve_left hn
  · intro h id hid
    exact h.imp_right fun hall => hall id hid

theorem setControl_answers (hD : StableControls D) {name : Option CString} {value : Int32} {w w' : World δ T} {c : Bool}
    (hw : AnswersAs D device w) (h : setControl D name value w = some (w', c)) : AnswersAs D device w' :=
  forEach_keep (fun _ _ _ _ _ hs => setControlAt_answers hD hs) hw h

theorem getString_isSome {json : Json} : (json.getString J).isSome = true ↔ json ≠ .null := by
  cases json with
  | null => simp [Json.getString]
  | _ => simp [Json.getString]

/-- An entry of the array: an object, with a name if the camera answers for anything. -/
def EntryOk (D : Driver δ) (device : δ) (ctrl : Json) : Prop :=
  ObjectOrNull ctrl ∧ (ctrl.objectGet "ctrlName" ≠ .null ∨ ∀ id ∈ cids, D.queryctrl device id = none)

theorem readDeviceControl_goes (hD : StableControls D) {json : Json} (hj : IsArray json) {ctrl : Json} {w : World δ T}
    (hw : AnswersAs D device w) :
    (∀ u ∈ readDeviceControlUses D J json ctrl w, u.Allowed) ∧ (readDeviceControl D J ctrl w).isSome = true ↔
      EntryOk D device ctrl := by
  unfold readDeviceControlUses readDeviceControl EntryOk
  rw [List.forall_mem_append, and_assoc, setControl_goes hD hw, getString_isSome]
  refine and_congr_left fun _ => ?_
  simp [Use.Allowed, hj]

theorem readDeviceControls_goes (hD : StableControls D) {json : Json} {w : World δ T} (hw : AnswersAs D device w) :
    (∀ u ∈ readDeviceControlsUses D J json w, u.Allowed) ∧ (readDeviceControls D J json w).isSome = true ↔
      ∃ items, json = .array items ∧ ∀ ctrl ∈ items, EntryOk D device ctrl := by
  unfold readDeviceControlsUses readDeviceControls
  rw [List.forall_mem_cons]
  cases json with
  | array items =>
    have hj : IsArray (.array items) := ⟨items, rfl⟩
    rw [and_assoc, usesEach_iff (P := AnswersAs D device) (C := EntryOk D device)
      (fun ctrl w hw => readDeviceControl_goes hD hj hw) (fun ctrl w w' c hw h => setControl_answers hD hw h) hw]
    constructor
    · exact fun h => ⟨items, rfl, h.2⟩
    · intro h
      obtain ⟨items', he, h⟩ := h
      cases he
      exact ⟨hj, h⟩
  | _ => exact iff_of_false (fun h => Bool.noConfusion h.2) fun ⟨_, he, _⟩ => by cases he

theorem readDisplayControlsUses_allowed {json : Json} :
    (∀ u ∈ readDisplayControlsUses json, u.Allowed) ↔
      ObjectOrNull json ∧ ∀ key ∈ ["fcc", "bws", "lti"], ObjectOrNull (json.objectGet key) := by
  have block {ι : Type} (json : Json) {dec : List (ι × String)} (hne : dec ≠ []) :
      (∀ u ∈ decodeUses json dec, u.Allowed) ↔ ObjectOrNull json := by
    unfold decodeUses
    rw [List.forall_mem_map]
    constructor
    · exact fun h => h _ (List.head_mem hne)
    · exact fun h _ _ => h
  unfold readDisplayControlsUses
  rw [List.forall_mem_append, List.forall_mem_append, List.forall_mem_append, block _ (by simp [fccReads]),
    block _ (by simp [bwsReads]), block _ (by simp [ltiReads])]
  simp [Use.Allowed, and_assoc]

/-- The whole walk goes through on documents of the right shape. -/
theorem readControlsUses_allowed (hD : StableControls D) {json : Json} {w : World δ T} :
    (∀ u ∈ readControlsUses D J json w, u.Allowed) ∧
      (readDeviceControls D J (json.objectGet "device") w).isSome = true ↔
      Walkable D w.device json := by
  have hdevice := @readDeviceControls_goes _ _ D J w.device hD (json.objectGet "device") w fun _ => Iff.rfl
  unfold readControlsUses
  rw [List.forall_mem_append, List.forall_mem_cons]
  constructor
  · intro h
    obtain ⟨⟨⟨hobject, huses⟩, hrest⟩, hgoes⟩ := h
    obtain ⟨items, hitems, hentries⟩ := hdevice.1 ⟨huses, hgoes⟩
    obtain ⟨r, hr⟩ := Option.isSome_iff_exists.1 hgoes
    rw [hr, List.forall_mem_cons] at hrest
    obtain ⟨hdisplay, hblocks⟩ := readDisplayControlsUses_allowed.1 hrest.2
    refine ⟨hobject.resolve_left ?_, ⟨items, hitems, hentries⟩, hdisplay, hblocks⟩
    -- There is no array in `NULL`.
    intro hnull
    rw [hnull] at hitems
    cases hitems
  · intro h
    obtain ⟨huses, hgoes⟩ := hdevice.2 h.device
    obtain ⟨r, hr⟩ := Option.isSome_iff_exists.1 hgoes
    refine ⟨⟨⟨.inr h.object, huses⟩, ?_⟩, hgoes⟩
    rw [hr, List.forall_mem_cons]
    exact ⟨.inr h.object, readDisplayControlsUses_allowed.2 ⟨h.display, h.blocks⟩⟩

end Walk

/-- **When `read_controls` finishes normally**, for every file and every camera whose
controls stay the same. -/
theorem finishes_normally_iff {D : Driver δ} (hD : StableControls D) (J : JsonC) (io : Stdio) (stack : Params T)
    (w : World δ T) :
    FinishesNormally D J io stack w ↔
      ∀ text, givenText io w.file = some text → ∃ json, J.parse text = some json ∧ Walkable D w.device json := by
  cases hgiven : givenText io w.file with
  | none =>
    obtain ⟨hnone, hcalls⟩ := readJson_of_none (J := J) hgiven
    refine iff_of_true ⟨?_, ?_, ?_⟩ fun text h => by cases h
    · rw [readControls_none hnone]
      rfl
    · intro json h
      cases hnone.symm.trans h
    · simp only [List.mem_cons, List.not_mem_nil, or_false] at hcalls
      rcases hcalls with h | h | h
      all_goals
        rw [h]
        decide
  | some text =>
    have hread := readJson_of_some (J := J) hgiven
    have htext : (∀ text', some text = some text' → ∃ json, J.parse text' = some json ∧ Walkable D w.device json) ↔
        ∃ json, J.parse text = some json ∧ Walkable D w.device json := by
      simp
    rw [htext]
    cases hparse : J.parse text with
    | none =>
      rw [hparse] at hread
      refine iff_of_false (fun h => ?_) fun ⟨_, h, _⟩ => by cases h
      have hcloses := h.closes
      rw [hread] at hcloses
      exact absurd hcloses (by decide)
    | some json =>
      rw [hparse] at hread
      have hjson : (readJson J io w.file).2 = some json := by
        rw [hread]
      have hwalk : (∃ json', some json = some json' ∧ Walkable D w.device json') ↔ Walkable D w.device json := by
        simp
      rw [hwalk, ← readControlsUses_allowed (J := J) hD]
      have hreturns : (readControls D J io stack w).isSome =
        (readDeviceControls D J (json.objectGet "device") w).isSome := by
        rw [readControls_some hjson, Option.isSome_map]
      constructor
      · exact fun h => ⟨h.uses json hjson, hreturns ▸ h.returns⟩
      · intro h
        refine ⟨hreturns ▸ h.2, ?_, ?_⟩
        · intro json' hjson'
          cases hjson.symm.trans hjson'
          exact h.1
        · rw [hread]
          show List.count Call.fclose [.fopen, .malloc, .fclose, .parse] ≤ 1
          decide

theorem stableControls_webcam : StableControls webcam := fun _ _ _ _ => Iff.rfl

theorem isObject_build (entries : List (String × Json)) : IsObject (.build entries) := ⟨_, rfl⟩

/-- What `write_file` prints is of the shape `read_controls` expects. -/
theorem walkable_document (D : Driver δ) (w : World δ T) : Walkable D w.device (document D w) := by
  have hkeys : ∀ a b : Json, ([("device", a), ("display", b)].map Prod.fst).Nodup := by
    simp
  have hblocks : ∀ a b c : Json, ([("fcc", a), ("bws", b), ("lti", c)].map Prod.fst).Nodup := by
    simp
  have hdisplay : (document D w).objectGet "display" = getDisplayCtrlsJsonArray w.params :=
    Json.objectGet_build (hkeys _ _) (by simp)
  refine ⟨isObject_build _, ⟨_, Json.objectGet_build (hkeys _ _) List.mem_cons_self, fun ctrl hctrl => ?_⟩, ?_,
    fun key hkey => ?_⟩
  · obtain ⟨id, -, hctrl⟩ := List.mem_filterMap.1 hctrl
    unfold ctrlJson at hctrl
    split at hctrl
    · cases hctrl
    · next qctrl _ =>
      obtain ⟨type, -, rfl⟩ := Option.map_eq_some_iff.1 hctrl
      have hname : ("ctrlName", Json.newString qctrl.name) ∈ ctrlEntries D w.device id qctrl type := by
        simp [ctrlEntries]
      refine ⟨.inr (isObject_build _), .inl ?_⟩
      rw [Json.objectGet_build (ctrlEntries_keys D w.device id qctrl type) hname]
      exact Json.noConfusion
  · rw [hdisplay]
    exact .inr (isObject_build _)
  · rw [hdisplay]
    unfold getDisplayCtrlsJsonArray
    simp only [List.mem_cons, List.not_mem_nil, or_false] at hkey
    rcases hkey with rfl | rfl | rfl
    · rw [Json.objectGet_build (hblocks _ _ _) List.mem_cons_self]
      exact .inr (isObject_build _)
    · rw [Json.objectGet_build (hblocks _ _ _) (List.mem_cons_of_mem _ List.mem_cons_self)]
      exact .inr (isObject_build _)
    · rw [Json.objectGet_build (hblocks _ _ _) (List.mem_cons_of_mem _ (List.mem_cons_of_mem _ List.mem_cons_self))]
      exact .inr (isObject_build _)

/-- The file that is written for the sample camera. -/
theorem finishes_normally_iff_sample :
    FinishesNormally webcam (jsonCOf (document webcam webcamWorld)) ⟨true, true⟩ webcamWorld.params
      (writeFile webcam (jsonCOf (document webcam webcamWorld)) true webcamWorld) := by
  refine (finishes_normally_iff stableControls_webcam _ _ _ _).2 fun text h => ?_
  have hround : RoundTrips (jsonCOf (document webcam webcamWorld)) (document webcam webcamWorld) :=
    roundTrips_jsonCOf (by decide +kernel)
  have htext : text = ((jsonCOf (document webcam webcamWorld)).print (document webcam webcamWorld)).bytes := by
    refine (Option.some.inj (h.symm.trans ?_))
    decide +kernel
  exact ⟨_, htext ▸ hround.parse, walkable_document webcam webcamWorld⟩

/-- The length of an array is asked of the empty object. -/
theorem not_finishes_normally :
    ¬ ∀ (J : JsonC) (w : World (Nat → Int32) bytesAndWords) (text : List UInt8) (json : Json),
      givenText ⟨true, true⟩ w.file = some text → J.parse text = some json →
        FinishesNormally webcam J ⟨true, true⟩ webcamWorld.params w := by
  intro h
  have hfinishes := h { deviceJsonC with parse := fun _ => some (.object []) }
    (webcamWorld.withFile (some [0x7b, 0x7d]))
    [0x7b, 0x7d] (.object []) rfl rfl
  have hlength := hfinishes.uses (.object []) rfl (.arrayLength .null) (List.mem_cons_of_mem _ List.mem_cons_self)
  obtain ⟨items, hitems⟩ := hlength
  cases hitems

end Camview.ControlFile
