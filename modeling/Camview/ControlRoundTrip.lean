/-
Reading the controls file: what a run of `read_controls` that returns 0 leaves
(everything), and that it returns 0 on what `write_file` has just written.

`set_control` looks a control up by its name. It finds the one the entry was
written for and no other if the names are distinct, and finds it at its value, or
does not get its value; that the entry has no `ctrlValue` and reads as 0 in the
second case does not matter then.
-/
import Camview.ControlFile

namespace Camview.ControlFile

open Display (Block)

variable {δ : Type} {T : ParamTypes} {D : Driver δ} {J : JsonC} {w w' : World δ T}

/-! ## Loops -/

theorem forEach_cons {α σ : Type} (f : α → σ → Option (σ × Bool)) (a : α) (as : List α) (s : σ) :
    forEach f (a :: as) s = (f a s).bind fun r => (forEach f as r.1).map fun r' => (r'.1, r.2 || r'.2) := by
  rw [forEach]
  cases f a s with
  | none => rfl
  | some r =>
    obtain ⟨t, c⟩ := r
    show (forEach f as t >>= fun r' => pure (r'.1, c || r'.2)) = (forEach f as t).map fun r' => (r'.1, c || r'.2)
    cases forEach f as t with
    | none => rfl
    | some r' => rfl

/-- What each iteration keeps, the loop keeps. -/
theorem forEach_keep {α σ : Type} {f : α → σ → Option (σ × Bool)} {P : σ → Prop} {as : List α}
    (hkeep : ∀ a ∈ as, ∀ s s' c, P s → f a s = some (s', c) → P s') {s s' : σ} {c : Bool} (hs : P s)
    (h : forEach f as s = some (s', c)) : P s' := by
  induction as generalizing s c with
  | nil =>
    cases h
    exact hs
  | cons a as ih =>
    rw [List.forall_mem_cons] at hkeep
    rw [forEach_cons, Option.bind_eq_some_iff] at h
    obtain ⟨⟨t, d⟩, ht, h⟩ := h
    obtain ⟨⟨t', d'⟩, ht', h⟩ := Option.map_eq_some_iff.1 h
    cases h
    exact ih hkeep.2 (hkeep.1 s t d hs ht) ht'

/-- And what one of them gets to from there, the loop gets to. -/
theorem forEach_reach {α σ : Type} {f : α → σ → Option (σ × Bool)} {P Q : σ → Prop} {as : List α}
    (hkeep : ∀ a ∈ as, ∀ s s' c, P s → f a s = some (s', c) → P s')
    (hkeep' : ∀ a ∈ as, ∀ s s' c, Q s → f a s = some (s', c) → Q s') {b : α} (hb : b ∈ as)
    (hreach : ∀ s s' c, P s → f b s = some (s', c) → Q s') {s s' : σ} {c : Bool} (hs : P s)
    (h : forEach f as s = some (s', c)) : Q s' := by
  induction as generalizing s c with
  | nil => cases hb
  | cons a as ih =>
    rw [List.forall_mem_cons] at hkeep hkeep'
    rw [forEach_cons, Option.bind_eq_some_iff] at h
    obtain ⟨⟨t, d⟩, ht, h⟩ := h
    obtain ⟨⟨t', d'⟩, ht', h⟩ := Option.map_eq_some_iff.1 h
    cases h
    rcases List.mem_cons.1 hb with rfl | hb
    · exact forEach_keep hkeep'.2 (hreach s t d hs ht) ht'
    · exact ih hkeep.2 hkeep'.2 hb (hkeep.1 s t d hs ht) ht'

theorem forEach_unchanged {α σ : Type} {f : α → σ → Option (σ × Bool)} {s : σ} {as : List α}
    (h : ∀ a ∈ as, f a s = some (s, false)) : forEach f as s = some (s, false) := by
  induction as with
  | nil => rfl
  | cons a as ih => simp [forEach, h a (by simp), ih fun b hb => h b (by simp [hb])]

/-- What an iteration that reports no change leaves as it is, the loop does. -/
theorem forEach_false {α σ : Type} {f : α → σ → Option (σ × Bool)} (hf : ∀ a s s', f a s = some (s', false) → s' = s)
    {as : List α} {s s' : σ} (h : forEach f as s = some (s', false)) : s' = s := by
  induction as generalizing s with
  | nil => simpa [forEach] using h.symm
  | cons a as ih =>
    simp only [forEach, Option.bind_eq_bind, Option.bind_eq_some_iff, Option.pure_def, Option.some.injEq] at h
    obtain ⟨⟨t, c⟩, ht, ⟨t', c'⟩, ht', h⟩ := h
    simp only [Prod.mk.injEq, Bool.or_eq_false_iff] at h
    obtain ⟨rfl, rfl, rfl⟩ := h
    exact (ih ht').trans (hf a s t ht)

/-! ## Without a change -/

/-- What `set_control` does at one id: nothing, where there is nothing to do, or one
`VIDIOC_S_CTRL`. -/
theorem setControlAt_cases {name : Option CString} {value : Int32} {i : Nat} {c : Bool}
    (h : setControlAt D name value i w = some (w', c)) :
    (w' = w ∧ c = false ∧ ∀ q, D.queryctrl w.device i = some q → name = some q.name →
        ∀ prev, D.gCtrl w.device i = some prev → prev = value) ∨
      ∃ q prev, D.queryctrl w.device i = some q ∧ name = some q.name ∧ D.gCtrl w.device i = some prev ∧ prev ≠ value ∧
        c = true ∧ w' = { w with device := D.sCtrl w.device i value, ioctls := w.ioctls ++ [.sCtrl i value] } := by
  unfold setControlAt at h
  cases hq : D.queryctrl w.device i with
  | none =>
    rw [hq] at h
    cases h
    exact .inl ⟨rfl, rfl, fun q h => by cases h⟩
  | some q =>
    rw [hq] at h
    cases name with
    | none => cases h
    | some name =>
      dsimp only at h
      by_cases hname : q.name = name
      · rw [if_pos hname] at h
        cases hg : D.gCtrl w.device i with
        | none =>
          rw [hg] at h
          cases h
          exact .inl ⟨rfl, rfl, fun _ _ _ prev h => by cases h⟩
        | some prev =>
          rw [hg] at h
          dsimp only at h
          by_cases hne : prev ≠ value
          · rw [if_pos hne] at h
            cases h
            exact .inr ⟨q, prev, rfl, by rw [hname], rfl, hne, rfl, rfl⟩
          · rw [if_neg hne] at h
            cases h
            exact .inl ⟨rfl, rfl, fun _ _ _ p hp => by cases hp; exact not_not.1 hne⟩
      · rw [if_neg hname] at h
        cases h
        refine .inl ⟨rfl, rfl, fun q' hq' hn => ?_⟩
        cases hq'
        cases hn
        exact absurd rfl hname

theorem setControlAt_false {name : Option CString} {value : Int32} {id : Nat}
    (h : setControlAt D name value id w = some (w', false)) : w' = w := by
  rcases setControlAt_cases h with h | h
  · exact h.1
  · obtain ⟨q, prev, -, -, -, -, hc, -⟩ := h
    cases hc

theorem readDeviceControls_false {json : Json} (h : readDeviceControls D J json w = some (w', false)) : w' = w := by
  unfold readDeviceControls at h
  split at h
  · exact forEach_false (fun _ _ _ => forEach_false fun _ _ _ => setControlAt_false) h
  · cases h

theorem setDrm_self {ρ : Type} [DecidableEq ρ] {block : Block} {get : Params T → ρ} {put : ρ → Params T → Params T} :
    setDrm block get put (get w.params) w = (w, false) := if_pos rfl

theorem setDrm_false {ρ : Type} [DecidableEq ρ] {block : Block} {get : Params T → ρ} {put : ρ → Params T → Params T}
    {value : ρ} (h : (setDrm block get put value w).2 = false) : (setDrm block get put value w).1 = w := by
  unfold setDrm at h ⊢
  split at h
  · next e => rw [if_pos e]
  · cases h

theorem readDisplayControls_false {stack : Params T} {json : Json}
    (h : (readDisplayControls J stack json w).2 = false) : (readDisplayControls J stack json w).1 = w := by
  simp only [readDisplayControls, Bool.or_eq_false_iff] at h ⊢
  obtain ⟨⟨h1, h2⟩, h3⟩ := h
  have e1 := setDrm_false h1
  have e2 := setDrm_false h2
  exact (setDrm_false h3).trans (e2.trans e1)

/-- A run of `read_controls` that returns 0 has set nothing. -/
theorem readControls_false {io : Stdio} {stack : Params T} (h : readControls D J io stack w = some (w', false)) :
    w' = w := by
  unfold readControls at h
  split at h
  · simpa using h.symm
  · simp only [Option.bind_eq_bind, Option.bind_eq_some_iff, Option.pure_def, Option.some.injEq] at h
    obtain ⟨⟨v, c⟩, hv, h⟩ := h
    simp only [Prod.mk.injEq, Bool.or_eq_false_iff] at h
    obtain ⟨rfl, rfl, hd⟩ := h
    rw [readDisplayControls_false hd]
    exact readDeviceControls_false hv

theorem loadFileControls_false {io : Stdio} {stack : Params T}
    (h : loadFileControls D J io stack w = some (w', false)) : w' = w := by
  unfold loadFileControls at h
  split at h
  · exact readControls_false h
  · simpa using h.symm

/-! ## The file just written -/

/-- The names of the controls `VIDIOC_QUERYCTRL` answers for. -/
def names (D : Driver δ) (device : δ) : List CString :=
  cids.filterMap fun id => (D.queryctrl device id).map Queryctrl.name

theorem eq_of_name_eq {device : δ} (hn : (names D device).Nodup) {i j : Nat} (hi : i ∈ cids) (hj : j ∈ cids)
    {q q' : Queryctrl} (hq : D.queryctrl device i = some q) (hq' : D.queryctrl device j = some q')
    (h : q.name = q'.name) : i = j := by
  have hp := List.pairwise_filterMap.1 hn
  by_cases hij : i = j
  · exact hij
  · have hsym : Std.Symm (fun a b : Nat => ∀ n, (D.queryctrl device a).map Queryctrl.name = some n →
        ∀ n', (D.queryctrl device b).map Queryctrl.name = some n' → n ≠ n') :=
      ⟨fun a b hab n hn n' hn' e => hab n' hn' n hn e.symm⟩
    exact absurd h (hp.forall hi hj hij _ (by simp [hq]) _ (by simp [hq']))

theorem ctrlEntries_keys (D : Driver δ) (device : δ) (id : Nat) (qctrl : Queryctrl) (type : String) :
    ((ctrlEntries D device id qctrl type).map Prod.fst).Nodup := by
  unfold ctrlEntries
  cases D.gCtrl device id
  · by_cases h : qctrl.type = v4l2CtrlTypeMenu ∨ qctrl.type = v4l2CtrlTypeIntegerMenu
    · simp [h]
    · simp [h]
  · by_cases h : qctrl.type = v4l2CtrlTypeMenu ∨ qctrl.type = v4l2CtrlTypeIntegerMenu
    · simp [h]
    · simp [h]

/-- The entry of a control reads back as its name and its value. -/
theorem ctrlEntries_value {device : δ} {id : Nat} {value : Int32} (h : D.gCtrl device id = some value)
    (qctrl : Queryctrl) (type : String) :
    ((Json.build (ctrlEntries D device id qctrl type)).objectGet "ctrlValue").getInt J = value := by
  have hmem : ("ctrlValue", Json.newInt value) ∈ ctrlEntries D device id qctrl type := by simp [ctrlEntries, h]
  rw [Json.objectGet_build (ctrlEntries_keys D device id qctrl type) hmem, Json.getInt_newInt]

theorem ctrlEntries_name (D : Driver δ) (J : JsonC) (device : δ) (id : Nat) (qctrl : Queryctrl) (type : String) :
    ((Json.build (ctrlEntries D device id qctrl type)).objectGet "ctrlName").getString J = some qctrl.name := by
  have hmem : ("ctrlName", Json.newString qctrl.name) ∈ ctrlEntries D device id qctrl type := by simp [ctrlEntries]
  rw [Json.objectGet_build (ctrlEntries_keys D device id qctrl type) hmem, Json.getString_newString]

/-- The control an entry was written for is at its value, and no other is found. -/
theorem setControl_written (hn : (names D w.device).Nodup) {id : Nat} (hid : id ∈ cids) {qctrl : Queryctrl}
    (hq : D.queryctrl w.device id = some qctrl) {value : Int32} (hv : ∀ v, D.gCtrl w.device id = some v → v = value) :
    setControl D (some qctrl.name) value w = some (w, false) := by
  refine forEach_unchanged fun i hi => ?_
  unfold setControlAt
  cases hqi : D.queryctrl w.device i with
  | none => rfl
  | some q =>
    by_cases hname : q.name = qctrl.name
    · have : i = id := eq_of_name_eq hn hi hid hqi hq hname
      subst this
      cases hg : D.gCtrl w.device i with
      | none => simp [hname]
      | some v => simp [hname, hv v hg]
    · simp [hname]

theorem readDeviceControls_written (hn : (names D w.device).Nodup) :
    readDeviceControls D J (getDeviceCtrlsJsonArray D w.device) w = some (w, false) := by
  refine forEach_unchanged fun ctrl hctrl => ?_
  obtain ⟨id, hid, hctrl⟩ := List.mem_filterMap.1 hctrl
  unfold ctrlJson at hctrl
  split at hctrl
  · cases hctrl
  · next qctrl hq =>
    obtain ⟨type, -, rfl⟩ := Option.map_eq_some_iff.1 hctrl
    unfold readDeviceControl
    rw [ctrlEntries_name]
    exact setControl_written hn hid hq fun v hv => (ctrlEntries_value hv qctrl type).symm

theorem readDisplayControls_written (stack : Params T) :
    readDisplayControls J stack (getDisplayCtrlsJsonArray w.params) w = (w, false) := by
  have hkeys : ∀ a b c : Json, ([("fcc", a), ("bws", b), ("lti", c)].map Prod.fst).Nodup := by
    simp
  have hfcc : (getDisplayCtrlsJsonArray w.params).objectGet "fcc" = encode fccNames w.params.fcc :=
    Json.objectGet_build (hkeys _ _ _) (by simp)
  have hbws : (getDisplayCtrlsJsonArray w.params).objectGet "bws" = encode bwsNames w.params.bws :=
    Json.objectGet_build (hkeys _ _ _) (by simp)
  have hlti : (getDisplayCtrlsJsonArray w.params).objectGet "lti" = encode ltiNames w.params.lti :=
    Json.objectGet_build (hkeys _ _ _) (by simp)
  simp only [readDisplayControls, hfcc, hbws, hlti, decode_encode_fcc, decode_encode_bws, decode_encode_lti,
    setDrmFcc, setDrmBws, setDrmLti, setDrm_self, Bool.or_self]

theorem fgets_eq_self {bs : List UInt8} (h : 0x0a ∉ bs) : fgets bs = bs := by
  induction bs with
  | nil => rfl
  | cons b bs ih =>
    simp only [List.mem_cons, not_or] at h
    rw [fgets, if_neg (Ne.symm h.1), ih h.2]

/-- What is relied on of json-c for a value: it is printed on one line, and parsed
back from it. -/
structure RoundTrips (J : JsonC) (json : Json) : Prop where
  oneLine : '\n' ∉ (J.print json).chars
  parse : J.parse (J.print json).bytes = some json

/-- A file is skipped, or its first line is parsed. -/
theorem readJson_some (J : JsonC) (io : Stdio) (text : List UInt8) :
    (readJson J io (some text)).2 = none ∨
      (readJson J io (some text)).2 = J.parse ((fgets text).takeWhile (· ≠ 0)) := by
  unfold readJson
  dsimp only
  split
  · exact .inl rfl
  split
  · exact .inl rfl
  split
  · exact .inl rfl
  split
  · exact .inl rfl
  · cases J.parse ((fgets text).takeWhile (· ≠ 0)) with
    | none => exact .inl rfl
    | some json => exact .inr rfl

theorem readJson_print {json : Json} (h : RoundTrips J json) (io : Stdio) :
    (readJson J io (some (J.print json).bytes)).2 = none ∨
      (readJson J io (some (J.print json).bytes)).2 = some json := by
  have ht : (fgets (J.print json).bytes).takeWhile (· ≠ 0) = (J.print json).bytes := by
    rw [fgets_eq_self (CString.not_mem_bytes (by decide) h.oneLine), List.takeWhile_eq_self_iff]
    intro b hb
    simpa using fun e : b = 0 => (J.print json).zero_not_mem_bytes (e ▸ hb)
  have hread := readJson_some J io (J.print json).bytes
  rwa [ht, h.parse] at hread

/-- The file holds the values there are. -/
def Saved (D : Driver δ) (J : JsonC) (w : World δ T) : Prop := w.file = some (J.print (document D w)).bytes

instance (D : Driver δ) (J : JsonC) (w : World δ T) : Decidable (Saved D J w) := inferInstanceAs (Decidable (_ = _))

theorem readControls_saved (hs : Saved D J w) (hn : (names D w.device).Nodup) (hj : RoundTrips J (document D w))
    (io : Stdio) (stack : Params T) : readControls D J io stack w = some (w, false) := by
  have hkeys : ∀ a b : Json, ([("device", a), ("display", b)].map Prod.fst).Nodup := by
    simp
  have hdevice : (document D w).objectGet "device" = getDeviceCtrlsJsonArray D w.device :=
    Json.objectGet_build (hkeys _ _) (by simp)
  have hdisplay : (document D w).objectGet "display" = getDisplayCtrlsJsonArray w.params :=
    Json.objectGet_build (hkeys _ _) (by simp)
  unfold readControls
  rw [hs]
  rcases readJson_print hj io with h | h
  · rw [h]
  · rw [h]
    dsimp only
    rw [hdevice, hdisplay, readDeviceControls_written hn]
    simp [readDisplayControls_written]

/-- **Loading what was written is a no-op.** With distinct names, `read_controls`
returns 0 and sets nothing, on a file `write_file` has written, the camera and the
blocks being as they were then. -/
theorem readControls_writeFile (hn : (names D w.device).Nodup) (hj : RoundTrips J (document D w))
    (hfile : w'.file = (writeFile D J true w).file) (hdevice : w'.device = w.device) (hparams : w'.params = w.params)
    (io : Stdio) (stack : Params T) : readControls D J io stack w' = some (w', false) := by
  have hdoc : document D w' = document D w := by
    simp only [document, hdevice, hparams]
  refine readControls_saved ?_ (by rwa [hdevice]) (by rwa [hdoc]) io stack
  rw [Saved, hdoc, hfile]
  rfl

mutual

/-- A value as json-c prints it, a string without characters it escapes. -/
def spaced : Json → List Char
  | .null => "null".toList
  | .boolean b => (toString b).toList
  | .int v => (toString v).toList
  | .double bits => (toString bits).toList
  | .string s => '"' :: (s.toList ++ ['"'])
  | .array items => '[' :: (spacedItems items ++ [' ', ']'])
  | .object fields => '{' :: (spacedFields fields ++ [' ', '}'])

def spacedItems : List Json → List Char
  | [] => []
  | [item] => ' ' :: spaced item
  | item :: items => ' ' :: (spaced item ++ ',' :: spacedItems items)

def spacedFields : List (String × Json) → List Char
  | [] => []
  | [(key, val)] => ' ' :: '"' :: (key.toList ++ '"' :: ':' :: ' ' :: spaced val)
  | (key, val) :: fields =>
    ' ' :: '"' :: (key.toList ++ '"' :: ':' :: ' ' :: (spaced val ++ ',' :: spacedFields fields))

end

/-- json-c as it prints `json` and parses what it printed. -/
def jsonCOf (json : Json) : JsonC where
  print json := .ofChars (spaced json)
  parse bs := if bs = (CString.ofChars (spaced json)).bytes then some json else none
  intOfString _ := 0
  intOfDouble _ := 0

theorem roundTrips_jsonCOf {json : Json} (h : '\n' ∉ spaced json) : RoundTrips (jsonCOf json) json := by
  constructor
  · intro hmem
    exact h (List.takeWhile_subset (· ≠ '\x00') hmem)
  · simp only [jsonCOf, if_true]

/-- A camera with one integer, one button, whose value cannot be read, and one menu. -/
def webcam : Driver (Nat → Int32) where
  queryctrl _ id :=
    if id = v4l2CidBase then some ⟨v4l2CtrlTypeInteger, .ofString "Brightness", -64, 64, 1, 0⟩
    else if id = v4l2CidBase + 13 then some ⟨v4l2CtrlTypeButton, .ofString "Do White Balance", 0, 0, 0, 0⟩
    else if id = v4l2CidBase + 24 then some ⟨v4l2CtrlTypeMenu, .ofString "Power Line Frequency", 0, 1, 1, 0⟩
    else none
  querymenu _ id := if id = v4l2CidBase + 24 then [⟨.ofString "Disabled", 0⟩, ⟨.ofString "50 Hz", 0⟩] else []
  gCtrl device id := if id = v4l2CidBase + 13 then none else some (device id)
  sCtrl device id value := Function.update device id value

def bytesAndWords : ParamTypes where
  fcc f := if f = .enable then ⟨8, false, by decide⟩ else ⟨16, true, by decide⟩
  bws _ := ⟨32, false, by decide⟩
  lti _ := ⟨8, true, by decide⟩

def webcamWorld : World (Nat → Int32) bytesAndWords where
  device id := if id = v4l2CidBase then -3 else 1
  params :=
    { fcc := fun f => .ofNat _ (if f = .enable then 255 else 65000)
      bws := fun _ => .ofNat _ 4000000000
      lti := fun _ => .ofNat _ 200 }
  displayInitialized := true
  pendingControlsApply := false
  file := none
  ioctls := []

theorem readControls_writeFile_webcam :
    readControls webcam (jsonCOf (document webcam webcamWorld)) ⟨true, true⟩ webcamWorld.params
      (writeFile webcam (jsonCOf (document webcam webcamWorld)) true webcamWorld) =
    some (writeFile webcam (jsonCOf (document webcam webcamWorld)) true webcamWorld, false) :=
  readControls_writeFile (w := webcamWorld) (by decide +kernel) (roundTrips_jsonCOf (by decide +kernel))
    rfl rfl rfl _ _

end Camview.ControlFile
