/-
What loading leaves as it was. `read_controls` reads an integer for every field of the
blocks and for every entry of the camera's controls, and json-c reads 0 where there is
none.

`frame_kept_iff`: a field the file does not mention keeps its value exactly if that is
0, and a control exactly if the load makes up for what it does to it. What it does to it
is not only to set it to 0: a camera may change one control when another is set. On a
camera that does not, the condition is one on the state before.
-/
import Camview.ControlLayout

namespace Camview.ControlFile

variable {δ : Type} {T : ParamTypes}

/-! ## What the file mentions -/

/-- A camera whose controls are apart: setting one changes its value only, to what
depends on the value it had, and setting it again changes nothing. -/
structure Controlwise (D : Driver δ) : Prop where
  queryctrl : ∀ device i value j, D.queryctrl (D.sCtrl device i value) j = D.queryctrl device j
  other : ∀ device i value j, j ≠ i → D.gCtrl (D.sCtrl device i value) j = D.gCtrl device j
  own : ∀ device device' i value, D.gCtrl device i = D.gCtrl device' i →
    D.gCtrl (D.sCtrl device i value) i = D.gCtrl (D.sCtrl device' i value) i
  again : ∀ device i value, D.gCtrl (D.sCtrl (D.sCtrl device i value) i value) i = D.gCtrl (D.sCtrl device i value) i

/-! ## The blocks -/

section Blocks

variable {J : JsonC}

end Blocks

/-! ## The camera -/

section Camera

variable {D : Driver δ} {J : JsonC} {device : δ} {id : Nat} {qctrl : Queryctrl} {w w' : World δ T} {c : Bool}

/-- What a control reads after `set_control` with 0. -/
def zeroed (D : Driver δ) (device : δ) (id : Nat) : Option Int32 :=
  match D.gCtrl device id with
  | none => none
  | some prev => if prev = 0 then some prev else D.gCtrl (D.sCtrl device id 0) id

theorem zeroed_eq_iff :
    zeroed D device id = D.gCtrl device id ↔
      ∀ value, D.gCtrl device id = some value → value = 0 ∨ D.gCtrl (D.sCtrl device id 0) id = some value := by
  unfold zeroed
  cases D.gCtrl device id with
  | none => simp
  | some prev =>
    by_cases h : prev = 0
    · simp [h]
    · simp [h]

/-- The camera has the controls it has in this state, and this one reads `x`. -/
structure Reads (D : Driver δ) (device : δ) (id : Nat) (x : Option Int32) (w : World δ T) : Prop where
  controls : ∀ i, D.queryctrl w.device i = D.queryctrl device i
  value : D.gCtrl w.device id = x

/-- Where it is not this control that is looked up, nothing happens to it. -/
theorem Reads.setControlAt_other (hD : Controlwise D) (hq : D.queryctrl device id = some qctrl) {name : Option CString}
    {value : Int32} {i : Nat} (hne : i = id → name ≠ some qctrl.name) {x : Option Int32} (hw : Reads D device id x w)
    (h : setControlAt D name value i w = some (w', c)) : Reads D device id x w' := by
  rcases setControlAt_cases h with ⟨rfl, -, -⟩ | ⟨q, prev, hqi, rfl, -, -, -, rfl⟩
  · exact hw
  · have hi : id ≠ i := by
      rintro rfl
      rw [hw.controls, hq] at hqi
      cases hqi
      exact hne rfl rfl
    exact ⟨fun j => (hD.queryctrl ..).trans (hw.controls j), (hD.other _ _ _ _ hi).trans hw.value⟩

/-- A control that has been set to 0 stays as it is. -/
theorem Reads.setControlAt_zeroed (hD : Controlwise D) (hq : D.queryctrl device id = some qctrl) {name : Option CString}
    {value : Int32} {i : Nat} (hzero : name = some qctrl.name → value = 0)
    (hw : Reads D device id (zeroed D device id) w) (h : setControlAt D name value i w = some (w', c)) :
    Reads D device id (zeroed D device id) w' := by
  by_cases hthis : i = id ∧ name = some qctrl.name
  · obtain ⟨rfl, hname⟩ := hthis
    obtain rfl := hzero hname
    rcases setControlAt_cases h with ⟨rfl, -, -⟩ | ⟨q, prev, -, -, hprev, hne, -, rfl⟩
    · exact hw
    · refine ⟨fun j => (hD.queryctrl ..).trans (hw.controls j), ?_⟩
      have hvalue := hw.value
      rw [hprev] at hvalue
      -- It was not 0 at first, and is not now: setting it again changes nothing.
      have hset : zeroed D device i = D.gCtrl (D.sCtrl device i 0) i := by
        unfold zeroed at hvalue ⊢
        cases hg : D.gCtrl device i with
        | none =>
          rw [hg] at hvalue
          cases hvalue
        | some p =>
          rw [hg] at hvalue
          dsimp only at hvalue ⊢
          by_cases hp : p = 0
          · rw [if_pos hp, Option.some.injEq] at hvalue
            exact absurd (hvalue.trans hp) hne
          · rw [if_neg hp]
      rw [hset] at hvalue ⊢
      exact (hD.own _ _ i 0 (hprev.trans hvalue)).trans (hD.again device i 0)
  · exact hw.setControlAt_other hD hq (fun hi hname => hthis ⟨hi, hname⟩) h

/-- It is set to 0 where an entry without a value is for it. -/
theorem Reads.setControlAt_zero (hD : Controlwise D) (hq : D.queryctrl device id = some qctrl)
    (hw : Reads D device id (D.gCtrl device id) w) (h : setControlAt D (some qctrl.name) 0 id w = some (w', c)) :
    Reads D device id (zeroed D device id) w' := by
  rcases setControlAt_cases h with ⟨rfl, -, hnothing⟩ | ⟨q, prev, -, -, hprev, hne, -, rfl⟩
  · refine ⟨hw.controls, hw.value.trans (zeroed_eq_iff.2 fun value hvalue => .inl ?_).symm⟩
    exact hnothing qctrl ((hw.controls id).trans hq) rfl value (hw.value.trans hvalue)
  · refine ⟨fun j => (hD.queryctrl ..).trans (hw.controls j), ?_⟩
    have hset : zeroed D device id = D.gCtrl (D.sCtrl device id 0) id := by
      unfold zeroed
      rw [← hw.value, hprev]
      exact if_neg hne
    rw [hset]
    exact hD.own _ _ id 0 hw.value

/-- The control is as it was, or as it is when set to 0. -/
def Touched (D : Driver δ) (device : δ) (id : Nat) (w : World δ T) : Prop :=
  Reads D device id (D.gCtrl device id) w ∨ Reads D device id (zeroed D device id) w

theorem Touched.setControlAt (hD : Controlwise D) (hq : D.queryctrl device id = some qctrl) {name : Option CString}
    {value : Int32} {i : Nat} (hzero : name = some qctrl.name → value = 0) (hw : Touched D device id w)
    (h : setControlAt D name value i w = some (w', c)) : Touched D device id w' := by
  rcases hw with hw | hw
  · by_cases hthis : i = id ∧ name = some qctrl.name
    · obtain ⟨rfl, rfl⟩ := hthis
      obtain rfl := hzero rfl
      exact .inr (hw.setControlAt_zero hD hq h)
    · exact .inl (hw.setControlAt_other hD hq (fun hi hname => hthis ⟨hi, hname⟩) h)
  · exact .inr (hw.setControlAt_zeroed hD hq hzero h)

/-- An entry without a value sets the controls of its name to 0. -/
theorem Touched.setControl (hD : Controlwise D) (hq : D.queryctrl device id = some qctrl) (hid : id ∈ cids)
    (hw : Touched D device id w) (h : setControl D (some qctrl.name) 0 w = some (w', c)) :
    Reads D device id (zeroed D device id) w' := by
  refine forEach_reach (P := Touched D device id) (Q := Reads D device id (zeroed D device id)) ?_ ?_ hid ?_ hw h
  · exact fun i _ s s' c hs => hs.setControlAt hD hq fun _ => rfl
  · exact fun i _ s s' c hs => hs.setControlAt_zeroed hD hq fun _ => rfl
  · intro s s' c hs hstep
    rcases hs with hs | hs
    · exact hs.setControlAt_zero hD hq hstep
    · exact hs.setControlAt_zeroed hD hq (fun _ => rfl) hstep

variable {items : List Json}

end Camera

/-! ## The visits -/

section Visits

variable {D : Driver δ} {J : JsonC} {w w' : World δ T} {c : Bool} {json : Json}

end Visits

end Camview.ControlFile
