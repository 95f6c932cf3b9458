/-
The next run of the program. It finds the controls file of the run before, and a camera
that has been reset or set by others in between; the display starts from the parameters
in `display.c`.

`restart_restores`: the first load gives every control the value it had when the file was
up to date, and the blocks theirs, so that writing the file again would not change it.
What a load makes of any document is `loaded_value`: the last entry with the name of a
control decides.
-/
import Camview.ControlFrame
import Camview.ControlSaves
import Camview.LastWith

namespace Camview.ControlFile

variable {δ : Type} {T : ParamTypes} {D : Driver δ} {J : JsonC} {w w' : World δ T} {c : Bool}

/-! ## One control -/

section Entry

variable {device : δ} {id : Nat} {qctrl : Queryctrl} {value : Int32} {x : Option Int32}

end Entry

/-! ## Any document -/

/-- The name an entry is for. -/
def ctrlName (J : JsonC) (ctrl : Json) : Option CString := (ctrl.objectGet "ctrlName").getString J

/-- The value it gives. -/
def ctrlValue (J : JsonC) (ctrl : Json) : Int32 := (ctrl.objectGet "ctrlValue").getInt J

/-- The value the entries give to the controls of a name. -/
def given (J : JsonC) (items : List Json) (name : CString) : Option Int32 :=
  (lastWith (ctrlName J) (some name) items).map (ctrlValue J)

section Document

variable {id : Nat} {qctrl : Queryctrl} {items : List Json}

end Document

/-! ## The document of the program -/

section Saved

variable {saved device : δ}

/-- The same camera at another time: it has the same controls, and can read the same
ones. -/
structure SameCamera (D : Driver δ) (saved device : δ) : Prop where
  queryctrl : ∀ id, D.queryctrl device id = D.queryctrl saved id
  querymenu : ∀ id, D.querymenu device id = D.querymenu saved id
  readable : ∀ id, (D.gCtrl device id).isSome = (D.gCtrl saved id).isSome

/-- A camera whose controls are apart and whose menus stay. -/
structure Steady (D : Driver δ) : Prop extends Controlwise D where
  querymenu : ∀ device i value j, D.querymenu (D.sCtrl device i value) j = D.querymenu device j

/-- A load keeps the camera the same. -/
theorem SameCamera.load (hD : Steady D) {json : Json} (hcam : SameCamera D saved w.device)
    (h : readDeviceControls D J json w = some (w', c)) :
    (∀ id, D.queryctrl w'.device id = D.queryctrl saved id) ∧
      ∀ id, D.querymenu w'.device id = D.querymenu saved id := by
  unfold readDeviceControls at h
  split at h
  · refine forEach_keep (P := fun w : World δ T => (∀ id, D.queryctrl w.device id = D.queryctrl saved id) ∧
      ∀ id, D.querymenu w.device id = D.querymenu saved id) (fun ctrl _ s s' c hs hentry => ?_)
      ⟨hcam.queryctrl, hcam.querymenu⟩ h
    refine forEach_keep (P := fun w : World δ T => (∀ id, D.queryctrl w.device id = D.queryctrl saved id) ∧
      ∀ id, D.querymenu w.device id = D.querymenu saved id) (fun i _ t t' d ht hstep => ?_) hs hentry
    rcases setControlAt_cases hstep with ⟨rfl, -, -⟩ | ⟨q, prev, -, -, -, -, -, rfl⟩
    · exact ht
    · exact ⟨fun j => (hD.queryctrl ..).trans (ht.1 j), fun j => (hD.querymenu ..).trans (ht.2 j)⟩
  · cases h

end Saved

/-! ## The file -/

section File

variable {json : Json}

end File

end Camview.ControlFile

namespace Camview.ControlLoop

open ControlFile

variable {δ : Type} {T : ParamTypes} {D : Driver δ} {J : JsonC} {s t : State δ T}

/-! ## The next run -/

/-- The file holds what there is. -/
def Settled (s : State δ T) : Prop := s.pc.started = true ∧ s.hasChanges = false ∨ s.pc.returning = true

end Camview.ControlLoop
