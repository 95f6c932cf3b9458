/-
What `read_controls` obtains and gives back: the stream, the buffer it reads the file
into, and the document.

`resources_released_iff`: nothing is left and nothing is given back twice on every path
but two. Where `fgets` fails the buffer is not freed, and where the text does not parse
the stream is closed again.
-/
import Camview.ControlRoundTrip
import Camview.Ledger

namespace Camview.ControlFile

variable {δ : Type} {T : ParamTypes}

/-! ## The calls -/

inductive Resource
  | stream
  | buffer
  | document
deriving DecidableEq, Repr

/-- What a call obtains, or gives back. -/
def Call.enter (L : Ledger Resource) : Call → Ledger Resource
  | .fopen => L.obtain [.stream]
  | .malloc => L.obtain [.buffer]
  | .parse => L.obtain [.document]
  | .fclose => L.release .stream
  | .free => L.release .buffer
  | .put => L.release .document

/-- What calls come to, one after the other. -/
def ledger (calls : List Call) : Ledger Resource := calls.foldl Call.enter .empty

/-- All that was obtained was given back, once, and nothing else was. -/
structure Balanced (calls : List Call) : Prop where
  held : (ledger calls).held = 0
  bad : (ledger calls).bad = []

/-- The calls of a run that goes on from the test of `json`, if there is one. -/
def toReturn : List Call × Option Json → List Call
  | (calls, none) => calls
  | (calls, some _) => calls ++ [.put, .free]

/-- The calls of `read_controls`, if it returns. -/
def readControlsCalls (D : Driver δ) (J : JsonC) (io : Stdio) (stack : Params T) (w : World δ T) :
    Option (List Call) :=
  (readControls D J io stack w).map fun _ => toReturn (readJson J io w.file)

/-- A file `read_controls` does not open, or skips for its size, or reads and parses. -/
def SkippedOrParsed (J : JsonC) (io : Stdio) (file : Option (List UInt8)) : Prop :=
  ∀ text, file = some text → io.fopen = true → 1 ≤ text.length → text.length ≤ 499999 →
    io.fgets = true ∧ (J.parse ((fgets text).takeWhile (· ≠ 0))).isSome

/-! ## The paths -/

/-- Each path of `read_controls`, as far as the calls go. -/
theorem balanced_paths : Balanced [] ∧ Balanced [.fopen, .fclose] ∧
    Balanced [.fopen, .malloc, .fclose, .parse, .put, .free] := by
  refine ⟨⟨rfl, rfl⟩, ⟨rfl, rfl⟩, ⟨rfl, rfl⟩⟩

/-- The buffer is left. -/
theorem not_balanced_fgets : ¬ Balanced [.fopen, .malloc, .fclose] := by
  intro h
  have hheld : ({.buffer} : Multiset Resource) = 0 := h.held
  exact absurd hheld (by decide)

/-- The stream is closed twice. -/
theorem not_balanced_parse : ¬ Balanced [.fopen, .malloc, .fclose, .fclose, .free] := by
  intro h
  have hbad : [Resource.stream] = [] := h.bad
  cases hbad

theorem balanced_readJson (J : JsonC) (io : Stdio) (file : Option (List UInt8)) :
    Balanced (toReturn (readJson J io file)) ↔ SkippedOrParsed J io file := by
  obtain ⟨hnone, hskipped, hparsed⟩ := balanced_paths
  unfold readJson
  cases file with
  | none =>
    refine iff_of_true hnone ?_
    intro text h
    cases h
  | some text =>
    have hcond : SkippedOrParsed J io (some text) ↔ (io.fopen = true → 1 ≤ text.length → text.length ≤ 499999 →
        io.fgets = true ∧ (J.parse ((fgets text).takeWhile (· ≠ 0))).isSome) := by
      unfold SkippedOrParsed
      simp
    rw [hcond]
    dsimp only
    cases hopen : io.fopen with
    | false => exact iff_of_true hnone fun h => absurd h Bool.noConfusion
    | true =>
      rw [if_neg (by decide)]
      by_cases hlarge : text.length + 1 > 500000
      · rw [if_pos hlarge]
        exact iff_of_true hskipped fun _ _ h => absurd h (by omega)
      rw [if_neg hlarge]
      by_cases hsmall : text.length + 1 < 2
      · rw [if_pos hsmall]
        exact iff_of_true hskipped fun _ h => absurd h (by omega)
      rw [if_neg hsmall]
      cases hgets : io.fgets with
      | false => exact iff_of_false not_balanced_fgets fun h => absurd (h rfl (by omega) (by omega)).1 Bool.noConfusion
      | true =>
        rw [if_neg (by decide)]
        cases J.parse ((fgets text).takeWhile (· ≠ 0)) with
        | none =>
          exact iff_of_false not_balanced_parse fun h => absurd (h rfl (by omega) (by omega)).2 Bool.noConfusion
        | some json => exact iff_of_true hparsed fun _ _ _ => ⟨rfl, rfl⟩

/-- **When `read_controls` releases what it obtained**, for every file and every outcome
of the C library. -/
theorem resources_released_iff {D : Driver δ} {J : JsonC} {io : Stdio} {stack : Params T} {w : World δ T}
    {calls : List Call} (h : readControlsCalls D J io stack w = some calls) :
    Balanced calls ↔ SkippedOrParsed J io w.file := by
  obtain ⟨r, -, rfl⟩ := Option.map_eq_some_iff.1 h
  exact balanced_readJson J io w.file

/-- A document without settings. -/
def emptyDocument : Json := .object [("device", .array []), ("display", .object [])]

/-- The sample camera, with these bytes in the controls file. -/
def webcamWith (file : List UInt8) : World (Nat → Int32) bytesAndWords := { webcamWorld with file := some file }

theorem resources_released_iff_sample :
    ∃ calls, readControlsCalls webcam (jsonCOf emptyDocument) ⟨true, true⟩ webcamWorld.params
        (webcamWith ((jsonCOf emptyDocument).print emptyDocument).bytes) = some calls ∧ Balanced calls := by
  have hcalls : readControlsCalls webcam (jsonCOf emptyDocument) ⟨true, true⟩ webcamWorld.params
      (webcamWith ((jsonCOf emptyDocument).print emptyDocument).bytes) =
      some [.fopen, .malloc, .fclose, .parse, .put, .free] := by decide +kernel
  refine ⟨_, hcalls, (resources_released_iff hcalls).2 ?_⟩
  intro text h _ _ _
  cases h
  exact ⟨rfl, by decide +kernel⟩

/-- A file with one letter in it is no document, and is closed twice. -/
theorem not_resources_released :
    ¬ ∀ (J : JsonC) (io : Stdio) (w : World (Nat → Int32) bytesAndWords) (calls : List Call),
      readControlsCalls webcam J io webcamWorld.params w = some calls → Balanced calls := by
  intro h
  have hcalls : readControlsCalls webcam (jsonCOf emptyDocument) ⟨true, true⟩ webcamWorld.params
      (webcamWith [0x78]) = some [.fopen, .malloc, .fclose, .fclose, .free] := by decide +kernel
  exact not_balanced_parse (h _ _ _ _ hcalls)

end Camview.ControlFile
