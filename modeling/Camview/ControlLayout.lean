/-
The layout of the controls file. `read_controls` reads its text with one `fgets`, and
gives json-c what stands before the end of the first line.

`layout_insensitive_iff`: the text is read whole, and what it does does not depend on
the white space between its tokens, as long as the file is one line.
-/
import Camview.ControlRoundTrip
import Camview.JsonTokens

namespace Camview.ControlFile

open JsonText

variable {δ : Type} {T : ParamTypes} {D : Driver δ} {J : JsonC} {io : Stdio}

/-! ## The text -/

/-- No line ends but at the end, and there is no NUL. -/
def OneLine (text : List UInt8) : Prop := 0x0a ∉ text.dropLast ∧ 0 ∉ text

instance (text : List UInt8) : Decidable (OneLine text) := inferInstanceAs (Decidable (_ ∧ _))

theorem fgets_initial (text : List UInt8) : fgets text <+: text := by
  induction text with
  | nil => exact List.prefix_refl []
  | cons b bs ih =>
    rw [fgets]
    split
    · exact List.prefix_append [b] bs
    · exact (List.prefix_cons_inj b).2 ih

theorem fgets_eq_iff {text : List UInt8} : fgets text = text ↔ 0x0a ∉ text.dropLast := by
  induction text with
  | nil => exact iff_of_true rfl List.not_mem_nil
  | cons b bs ih =>
    rw [fgets]
    cases bs with
    | nil => exact iff_of_true (ite_self [b]) List.not_mem_nil
    | cons c cs =>
      rw [List.dropLast_cons_cons, List.mem_cons, not_or]
      split
      · next hb => exact iff_of_false (by simp) fun h => h.1 hb.symm
      · next hb => rw [List.cons.injEq, and_iff_right rfl, ih, and_iff_right (Ne.symm hb)]

theorem given_eq_iff {text : List UInt8} : (fgets text).takeWhile (· ≠ 0) = text ↔ OneLine text := by
  have hnul : text.takeWhile (· ≠ 0) = text ↔ 0 ∉ text := by
    rw [List.takeWhile_eq_self_iff]
    constructor
    · intro h h0
      simpa using h 0 h0
    · intro h b hb
      simpa using fun e : b = 0 => h (e ▸ hb)
  unfold OneLine
  rw [← fgets_eq_iff, ← hnul]
  constructor
  · intro h
    -- A prefix of a prefix is the whole, and so is the one between.
    have hlen := congrArg List.length h
    have h1 := (List.takeWhile_prefix (· ≠ 0) (l := fgets text)).length_le
    have hfgets := (fgets_initial text).eq_of_length_le (by omega)
    rw [hfgets] at h
    exact ⟨hfgets, h⟩
  · intro h
    rw [h.1, h.2]

/-! ## What is applied -/

/-- The world with this in the controls file. -/
def World.withFile (file : Option (List UInt8)) (w : World δ T) : World δ T := { w with file := file }

theorem forEach_map {α σ : Type} {f : α → σ → Option (σ × Bool)} {φ : σ → σ}
    (h : ∀ a s, f a (φ s) = (f a s).map (Prod.map φ id)) (as : List α) (s : σ) :
    forEach f as (φ s) = (forEach f as s).map (Prod.map φ id) := by
  induction as generalizing s with
  | nil => rfl
  | cons a as ih =>
    rw [forEach_cons, forEach_cons, h]
    cases f a s with
    | none => rfl
    | some r =>
      rw [Option.map_some, Option.bind_some, Option.bind_some, Prod.map_fst, ih, Option.map_map, Option.map_map]
      rfl

theorem setControlAt_withFile (file : Option (List UInt8)) (name : Option CString) (value : Int32) (i : Nat)
    (w : World δ T) : setControlAt D name value i (w.withFile file) =
      (setControlAt D name value i w).map (Prod.map (World.withFile file) id) := by
  unfold setControlAt World.withFile
  dsimp only
  cases D.queryctrl w.device i with
  | none => rfl
  | some qctrl =>
    cases name with
    | none => rfl
    | some name =>
      dsimp only
      split
      · cases D.gCtrl w.device i with
        | none => rfl
        | some prevValue =>
          dsimp only
          split
          · rfl
          · rfl
      · rfl

theorem readDeviceControls_withFile (file : Option (List UInt8)) (json : Json) (w : World δ T) :
    readDeviceControls D J json (w.withFile file) =
      (readDeviceControls D J json w).map (Prod.map (World.withFile file) id) := by
  unfold readDeviceControls
  split
  · exact forEach_map (fun ctrl => forEach_map (fun i => setControlAt_withFile file _ _ i) cids) _ w
  · rfl

theorem setDrm_withFile {ρ : Type} [DecidableEq ρ] (file : Option (List UInt8)) (block : Display.Block)
    (get : Params T → ρ) (put : ρ → Params T → Params T) (value : ρ) (w : World δ T) :
    setDrm block get put value (w.withFile file) =
      Prod.map (World.withFile file) id (setDrm block get put value w) := by
  unfold setDrm World.withFile
  dsimp only
  split
  · rfl
  · cases w.displayInitialized with
    | false => rfl
    | true => rfl

theorem readDisplayControls_withFile (file : Option (List UInt8)) (stack : Params T) (json : Json) (w : World δ T) :
    readDisplayControls J stack json (w.withFile file) =
      Prod.map (World.withFile file) id (readDisplayControls J stack json w) := by
  unfold readDisplayControls setDrmFcc setDrmBws setDrmLti
  simp only [setDrm_withFile, Prod.map_fst, Prod.map_snd]
  rfl

/-- Nothing is left of what the local variables held. -/
theorem readDisplayControls_stack (stack stack' : Params T) (json : Json) (w : World δ T) :
    readDisplayControls J stack json w = readDisplayControls J stack' json w := by
  unfold readDisplayControls
  rw [decode_all J _ mem_fccReads stack.fcc stack'.fcc, decode_all J _ mem_bwsReads stack.bws stack'.bws,
    decode_all J _ mem_ltiReads stack.lti stack'.lti]

/-- A document that is parsed is applied, the camera's part first. -/
theorem readControls_some {stack : Params T} {w : World δ T} {json : Json} (h : (readJson J io w.file).2 = some json) :
    readControls D J io stack w = (readDeviceControls D J (json.objectGet "device") w).map fun r =>
      ((readDisplayControls J stack (json.objectGet "display") r.1).1,
        r.2 || (readDisplayControls J stack (json.objectGet "display") r.1).2) := by
  unfold readControls
  rw [h]
  dsimp only
  cases readDeviceControls D J (json.objectGet "device") w with
  | none => rfl
  | some r => rfl

theorem readControls_none {stack : Params T} {w : World δ T} (h : (readJson J io w.file).2 = none) :
    readControls D J io stack w = some (w, false) := by
  unfold readControls
  rw [h]

/-- The settings after a run, and its result. -/
def settings (r : Option (World δ T × Bool)) : Option (World δ T × Bool) := r.map (Prod.map (World.withFile none) id)

/-- They depend on the file as far as it is parsed. -/
theorem settings_readControls {stack : Params T} {w : World δ T} {file file' : Option (List UInt8)}
    (h : (readJson J io file).2 = (readJson J io file').2) (stack' : Params T) :
    settings (readControls D J io stack (w.withFile file)) =
      settings (readControls D J io stack' (w.withFile file')) := by
  cases hj : (readJson J io file).2 with
  | none =>
    rw [readControls_none (w := w.withFile file) hj, readControls_none (w := w.withFile file') (h.symm.trans hj)]
    rfl
  | some json =>
    rw [readControls_some (w := w.withFile file) hj, readControls_some (w := w.withFile file') (h.symm.trans hj),
      readDeviceControls_withFile, readDeviceControls_withFile]
    cases readDeviceControls D J (json.objectGet "device") w with
    | none => rfl
    | some r =>
      simp only [settings, Option.map_some, Prod.map_fst, Prod.map_snd, readDisplayControls_withFile,
        readDisplayControls_stack stack stack']
      rfl

/-- json-c parses texts that write the same tokens alike. -/
def LayoutFree (J : JsonC) : Prop := ∀ ts text text', Renders ts text → Renders ts text' → J.parse text = J.parse text'

/-- Two files are read whole, and alike if they differ in white space only, also where
the local variables hold something else. -/
structure ReadAlike (D : Driver δ) (J : JsonC) (io : Stdio) (w : World δ T) (text text' : List UInt8) : Prop where
  whole : ∀ given, givenText io (some text) = some given → given = text
  whole' : ∀ given, givenText io (some text') = some given → given = text'
  same : ∀ ts, Renders ts text → Renders ts text' → ∀ stack stack',
    settings (readControls D J io stack (w.withFile (some text))) =
      settings (readControls D J io stack' (w.withFile (some text')))

theorem givenText_some (io : Stdio) {text : List UInt8} (h1 : 1 ≤ text.length) (h2 : text.length ≤ 499999) :
    givenText io (some text) = if io.fopen && io.fgets then some ((fgets text).takeWhile (· ≠ 0)) else none := by
  unfold givenText
  dsimp only
  rw [decide_eq_true h1, decide_eq_true h2, Bool.and_true, Bool.and_true]

/-- **When the layout does not matter**, for any two files of the sizes that are read. -/
theorem layout_insensitive_iff (hJ : LayoutFree J) (w : World δ T) {text text' : List UInt8}
    (h1 : 1 ≤ text.length ∧ text.length ≤ 499999) (h2 : 1 ≤ text'.length ∧ text'.length ≤ 499999) :
    ReadAlike D J io w text text' ↔ (io.fopen = true → io.fgets = true → OneLine text ∧ OneLine text') := by
  have hgiven := givenText_some io h1.1 h1.2
  have hgiven' := givenText_some io h2.1 h2.2
  constructor
  · intro h hopen hgets
    rw [hopen, hgets, Bool.and_self, if_pos rfl] at hgiven hgiven'
    exact ⟨given_eq_iff.1 (h.whole _ hgiven), given_eq_iff.1 (h.whole' _ hgiven')⟩
  · intro h
    by_cases hio : (io.fopen && io.fgets) = true
    · rw [hio, if_pos rfl] at hgiven hgiven'
      obtain ⟨hline, hline'⟩ := h (Bool.and_eq_true_iff.1 hio).1 (Bool.and_eq_true_iff.1 hio).2
      rw [given_eq_iff.2 hline] at hgiven
      rw [given_eq_iff.2 hline'] at hgiven'
      refine ⟨fun g hg => Option.some.inj (hg.symm.trans hgiven),
        fun g hg => Option.some.inj (hg.symm.trans hgiven'), ?_⟩
      intro ts hts hts' stack stack'
      refine settings_readControls ?_ stack'
      rw [readJson_snd, readJson_snd, hgiven, hgiven', Option.bind_some, Option.bind_some]
      exact hJ ts text text' hts hts'
    · rw [if_neg hio] at hgiven hgiven'
      refine ⟨fun g hg => absurd (hg.symm.trans hgiven) (by simp),
        fun g hg => absurd (hg.symm.trans hgiven') (by simp), ?_⟩
      intro ts _ _ stack stack'
      refine settings_readControls ?_ stack'
      rw [readJson_snd, readJson_snd, hgiven, hgiven']

/-- A document without settings for the camera. -/
def deviceText (space : String) : List UInt8 :=
  ("\x7b" ++ space ++ "\"device\":[]\x7d").toList.map fun c => UInt8.ofNat c.toNat

/-- json-c, as far as this document goes. -/
def deviceJsonC : JsonC where
  print _ := .ofString ""
  parse text := if tokens text = tokens (deviceText "") then some (.object [("device", .array [])]) else none
  intOfString _ := 0
  intOfDouble _ := 0

theorem layoutFree_deviceJsonC : LayoutFree deviceJsonC := by
  intro ts text text' h h'
  simp only [deviceJsonC, tokens_of_renders h, tokens_of_renders h']

/-- A space more is read alike. -/
theorem layout_insensitive_iff_sample :
    ReadAlike webcam deviceJsonC ⟨true, true⟩ webcamWorld (deviceText "") (deviceText " ") :=
  (layout_insensitive_iff layoutFree_deviceJsonC webcamWorld (by decide +kernel) (by decide +kernel)).2
    fun _ _ => by decide +kernel

theorem renders_deviceText {space : String} (h : ∀ b ∈ space.toList.map fun c => UInt8.ofNat c.toNat, IsSpace b) :
    Renders [.punct 0x7b, .string [0x64, 0x65, 0x76, 0x69, 0x63, 0x65], .punct 0x3a, .punct 0x5b, .punct 0x5d,
      .punct 0x7d]
      (deviceText space) := by
  have hbody : StringBody [0x64, 0x65, 0x76, 0x69, 0x63, 0x65] :=
    .plain (by decide) (by decide) (.plain (by decide) (by decide) (.plain (by decide) (by decide)
      (.plain (by decide) (by decide) (.plain (by decide) (by decide) (.plain (by decide) (by decide) .nil)))))
  have hrest : Renders [.punct 0x3a, .punct 0x5b, .punct 0x5d, .punct 0x7d] [0x3a, 0x5b, 0x5d, 0x7d] :=
    .punct (by decide) (.punct (by decide) (.punct (by decide) (.punct (by decide) .nil)))
  have htext : deviceText space = 0x7b :: ((space.toList.map fun c => UInt8.ofNat c.toNat) ++
      quote :: ([0x64, 0x65, 0x76, 0x69, 0x63, 0x65] ++ quote :: [0x3a, 0x5b, 0x5d, 0x7d])) := by
    unfold deviceText
    rw [String.toList_append, String.toList_append, List.map_append, List.map_append, List.append_assoc]
    rfl
  rw [htext]
  exact .punct (by decide) ((Renders.string hbody hrest).spaces h)

/-- With a line break after its first character, the document is not applied. -/
theorem not_layout_insensitive :
    ¬ ∀ (J : JsonC) (w : World (Nat → Int32) bytesAndWords) (text text' : List UInt8), LayoutFree J →
      1 ≤ text.length ∧ text.length ≤ 499999 → 1 ≤ text'.length ∧ text'.length ≤ 499999 →
        ReadAlike webcam J ⟨true, true⟩ w text text' := by
  intro h
  have hsame := (h deviceJsonC webcamWorld (deviceText "") (deviceText "\n") layoutFree_deviceJsonC (by decide +kernel)
    (by decide +kernel)).same _ (renders_deviceText (by decide +kernel)) (renders_deviceText (by decide +kernel))
    webcamWorld.params webcamWorld.params
  have hflags := congrArg (Option.map Prod.snd) hsame
  exact absurd hflags (by decide +kernel)

end Camview.ControlFile
