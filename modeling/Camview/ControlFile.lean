/-
`control-file.c`: the controls of the camera and of the display written to
`CTRL_FILE` as one JSON document, and read back from it.

The camera is its driver (`Driver`): what it answers for a control id, depending
on a state of its own. What the control thread sees of everything is a `World`,
with the ioctls that set something as a history. A function that may end the
process, in an assertion of json-c or through a `NULL` name, is `none` there.
-/
import Camview.DisplayThreads
import Camview.Params

namespace Camview.ControlFile

open Display (Block)

/-! ## The camera -/

def v4l2CidBase : Nat := 0x00980900
def v4l2CidLastp1 : Nat := v4l2CidBase + 44

/-- The ids the loops go over. -/
def cids : List Nat := List.range' v4l2CidBase (v4l2CidLastp1 - v4l2CidBase)

def v4l2CtrlTypeInteger : UInt32 := 1
def v4l2CtrlTypeBoolean : UInt32 := 2
def v4l2CtrlTypeMenu : UInt32 := 3
def v4l2CtrlTypeButton : UInt32 := 4
def v4l2CtrlTypeInteger64 : UInt32 := 5
def v4l2CtrlTypeCtrlClass : UInt32 := 6
def v4l2CtrlTypeString : UInt32 := 7
def v4l2CtrlTypeBitmask : UInt32 := 8
def v4l2CtrlTypeIntegerMenu : UInt32 := 9
def v4l2CtrlTypeU8 : UInt32 := 0x0100
def v4l2CtrlTypeU16 : UInt32 := 0x0101
def v4l2CtrlTypeU32 : UInt32 := 0x0102
def v4l2CtrlTypeArea : UInt32 := 0x0106
def v4l2CtrlTypeHdr10CllInfo : UInt32 := 0x0110
def v4l2CtrlTypeHdr10MasteringDisplay : UInt32 := 0x0111

/-- `control_type_name`; `none` is `NULL`. -/
def controlTypeName (type : UInt32) : Option String :=
  if type = v4l2CtrlTypeInteger then some "V4L2_CTRL_TYPE_INTEGER"
  else if type = v4l2CtrlTypeBoolean then some "V4L2_CTRL_TYPE_BOOLEAN"
  else if type = v4l2CtrlTypeMenu then some "V4L2_CTRL_TYPE_MENU"
  else if type = v4l2CtrlTypeButton then some "V4L2_CTRL_TYPE_BUTTON"
  else if type = v4l2CtrlTypeInteger64 then some "V4L2_CTRL_TYPE_INTEGER64"
  else if type = v4l2CtrlTypeCtrlClass then some "V4L2_CTRL_TYPE_CTRL_CLASS"
  else if type = v4l2CtrlTypeString then some "V4L2_CTRL_TYPE_STRING"
  else if type = v4l2CtrlTypeBitmask then some "V4L2_CTRL_TYPE_BITMASK"
  else if type = v4l2CtrlTypeIntegerMenu then some "V4L2_CTRL_TYPE_INTEGER_MENU"
  else if type = v4l2CtrlTypeU8 then some "V4L2_CTRL_TYPE_U8"
  else if type = v4l2CtrlTypeU16 then some "V4L2_CTRL_TYPE_U16"
  else if type = v4l2CtrlTypeU32 then some "V4L2_CTRL_TYPE_U32"
  else if type = v4l2CtrlTypeArea then some "V4L2_CTRL_TYPE_AREA"
  else if type = v4l2CtrlTypeHdr10CllInfo then some "V4L2_CTRL_TYPE_HDR10_CLL_INFO"
  else if type = v4l2CtrlTypeHdr10MasteringDisplay then some "V4L2_CTRL_TYPE_HDR10_MASTERING_DISPLAY"
  else none

/-- `struct v4l2_queryctrl`, as far as it is looked at. -/
structure Queryctrl where
  type : UInt32
  name : CString
  minimum : Int32
  maximum : Int32
  step : Int32
  defaultValue : Int32
deriving DecidableEq

/-- `struct v4l2_querymenu`; the name and the value are read from the same bytes. -/
structure Querymenu where
  name : CString
  value : Int64
deriving DecidableEq

/-- The driver, over its state. `none` is an ioctl that fails. -/
structure Driver (δ : Type) where
  /-- `VIDIOC_QUERYCTRL` -/
  queryctrl : δ → Nat → Option Queryctrl
  /-- `VIDIOC_QUERYMENU` for the indices from 0 on, until it fails -/
  querymenu : δ → Nat → List Querymenu
  /-- `VIDIOC_G_CTRL` -/
  gCtrl : δ → Nat → Option Int32
  /-- `VIDIOC_S_CTRL`, whatever it returns -/
  sCtrl : δ → Nat → Int32 → δ

/-! ## The world -/

/-- The types of the fields of the blocks. -/
structure ParamTypes where
  fcc : FccField → IntType
  bws : BwsField → IntType
  lti : LtiField → IntType

/-- A value of each block. -/
structure Params (T : ParamTypes) where
  fcc : Record T.fcc
  bws : Record T.bws
  lti : Record T.lti

/-- An ioctl that sets something. -/
inductive Ioctl
  /-- `VIDIOC_S_CTRL` -/
  | sCtrl (id : Nat) (value : Int32)
  /-- `DRM_IOCTL_SUN4I_SET_FCC_PARAMS` and its likes -/
  | setParams (block : Block)
deriving DecidableEq, Repr

/-- `params` are the variables `fcc`, `bws` and `lti` of `display.c`; `file` is what
`CTRL_FILE` holds, if it is there. -/
structure World (δ : Type) (T : ParamTypes) where
  device : δ
  params : Params T
  displayInitialized : Bool
  pendingControlsApply : Bool
  file : Option (List UInt8)
  ioctls : List Ioctl

variable {δ : Type} {T : ParamTypes}

/-! ## Writing -/

/-- `get_menu_ctrls_json`. -/
def getMenuCtrlsJson (D : Driver δ) (device : δ) (id : Nat) (type : UInt32) : Json :=
  .array ((D.querymenu device id).mapIdx fun index menu =>
    .build [("menuItemName", .newString menu.name),
      ("menuItemValue", .int (if type = v4l2CtrlTypeIntegerMenu then menu.value.toInt else index))])

/-- What `get_device_ctrls_json_array` adds to the object of a control. -/
def ctrlEntries (D : Driver δ) (device : δ) (id : Nat) (qctrl : Queryctrl) (type : String) : List (String × Json) :=
  List.flatten [[("ctrlName", .newString qctrl.name), ("ctrlMax", .newInt qctrl.maximum),
      ("ctrlMin", .newInt qctrl.minimum), ("ctrlStep", .newInt qctrl.step),
      ("ctrlDefault", .newInt qctrl.defaultValue), ("ctrlType", .string type)],
    match D.gCtrl device id with
    | some value => [("ctrlValue", .newInt value)]
    | none => [],
    if qctrl.type = v4l2CtrlTypeMenu ∨ qctrl.type = v4l2CtrlTypeIntegerMenu then
      [("ctrlMenu", getMenuCtrlsJson D device id qctrl.type)]
    else []]

/-- The object of the control with this id, if it gets one. -/
def ctrlJson (D : Driver δ) (device : δ) (id : Nat) : Option Json :=
  match D.queryctrl device id with
  | none => none
  | some qctrl => (controlTypeName qctrl.type).map fun type => .build (ctrlEntries D device id qctrl type)

/-- `get_device_ctrls_json_array`. -/
def getDeviceCtrlsJsonArray (D : Driver δ) (device : δ) : Json := .array (cids.filterMap (ctrlJson D device))

/-- `get_display_ctrls_json_array`. -/
def getDisplayCtrlsJsonArray (p : Params T) : Json :=
  .build [("fcc", encode fccNames p.fcc), ("bws", encode bwsNames p.bws), ("lti", encode ltiNames p.lti)]

/-- The document `write_file` prints. -/
def document (D : Driver δ) (w : World δ T) : Json :=
  .build [("device", getDeviceCtrlsJsonArray D w.device), ("display", getDisplayCtrlsJsonArray w.params)]

/-- `write_file`; `opened` is whether `fopen` succeeds. -/
def writeFile (D : Driver δ) (J : JsonC) (opened : Bool) (w : World δ T) : World δ T :=
  if opened then { w with file := some (J.print (document D w)).bytes } else w

/-! ## Setting -/

/-- A loop that keeps in `changed` whether an iteration changed something. -/
def forEach {α σ : Type} (f : α → σ → Option (σ × Bool)) : List α → σ → Option (σ × Bool)
  | [], s => some (s, false)
  | a :: as, s => do
    let (s, changed) ← f a s
    let (s, changed') ← forEach f as s
    pure (s, changed || changed')

/-- `set_control` at one id. -/
def setControlAt (D : Driver δ) (name : Option CString) (value : Int32) (id : Nat) (w : World δ T) :
    Option (World δ T × Bool) :=
  match D.queryctrl w.device id with
  | none => some (w, false)
  | some qctrl =>
    match name with
    | none => none
    | some name =>
      if qctrl.name = name then
        match D.gCtrl w.device id with
        | none => some (w, false)
        | some prevValue =>
          if prevValue ≠ value then
            some ({ w with device := D.sCtrl w.device id value, ioctls := w.ioctls ++ [.sCtrl id value] }, true)
          else some (w, false)
      else some (w, false)

/-- `set_control`. -/
def setControl (D : Driver δ) (name : Option CString) (value : Int32) : World δ T → Option (World δ T × Bool) :=
  forEach (setControlAt D name value) cids

/-- A block set to `value`: `get` and `put` are its variable in the world. -/
def setDrm {ρ : Type} [DecidableEq ρ] (block : Block) (get : Params T → ρ) (put : ρ → Params T → Params T)
    (value : ρ) (w : World δ T) : World δ T × Bool :=
  if value = get w.params then (w, false)
  else
    let w := { w with params := put value w.params }
    (if w.displayInitialized then { w with ioctls := w.ioctls ++ [.setParams block] }
      else { w with pendingControlsApply := true }, true)

/-- `set_drm_fcc`. -/
def setDrmFcc : Record T.fcc → World δ T → World δ T × Bool := setDrm .fcc Params.fcc fun r p => { p with fcc := r }

/-- `set_drm_bws`. -/
def setDrmBws : Record T.bws → World δ T → World δ T × Bool := setDrm .bws Params.bws fun r p => { p with bws := r }

/-- `set_drm_lti`. -/
def setDrmLti : Record T.lti → World δ T → World δ T × Bool := setDrm .lti Params.lti fun r p => { p with lti := r }

/-! ## Reading -/

/-- One entry of the array in `read_device_controls`. -/
def readDeviceControl (D : Driver δ) (J : JsonC) (ctrl : Json) : World δ T → Option (World δ T × Bool) :=
  setControl D ((ctrl.objectGet "ctrlName").getString J) ((ctrl.objectGet "ctrlValue").getInt J)

/-- `read_device_controls`; `json_object_array_length` asserts that it is given an
array. -/
def readDeviceControls (D : Driver δ) (J : JsonC) (json : Json) (w : World δ T) : Option (World δ T × Bool) :=
  match json with
  | .array items => forEach (readDeviceControl D J) items w
  | _ => none

/-- `read_display_controls`; `stack` is what its variables hold before they are
assigned. -/
def readDisplayControls (J : JsonC) (stack : Params T) (json : Json) (w : World δ T) : World δ T × Bool :=
  let (w, changed) := setDrmFcc (decode J (json.objectGet "fcc") fccReads stack.fcc) w
  let (w, changed') := setDrmBws (decode J (json.objectGet "bws") bwsReads stack.bws) w
  let (w, changed'') := setDrmLti (decode J (json.objectGet "lti") ltiReads stack.lti) w
  (w, changed || changed' || changed'')

/-- What `read_controls` obtains and gives back. -/
inductive Call
  | fopen
  | fclose
  | malloc
  | free
  | parse
  | put
deriving DecidableEq, Repr

/-- Whether the functions of the C library succeed in a run of `read_controls`. -/
structure Stdio where
  fopen : Bool
  fgets : Bool

/-- What `fgets` stores of a file it reads whole, if no line ends before. -/
def fgets : List UInt8 → List UInt8
  | [] => []
  | b :: bs => if b = 0x0a then [b] else b :: fgets bs

/-- `read_controls` to the test of `json`, with its calls on the way. Where the text
does not parse it closes the stream a second time, and is taken to go on. -/
def readJson (J : JsonC) (io : Stdio) (file : Option (List UInt8)) : List Call × Option Json :=
  match file with
  | none => ([], none)
  | some text =>
    if !io.fopen then ([], none)
    else
      let size := text.length + 1
      if size > 500000 then ([.fopen, .fclose], none)
      else if size < 2 then ([.fopen, .fclose], none)
      else if !io.fgets then ([.fopen, .malloc, .fclose], none)
      else
        match J.parse ((fgets text).takeWhile (· ≠ 0)) with
        | none => ([.fopen, .malloc, .fclose, .fclose, .free], none)
        | some json => ([.fopen, .malloc, .fclose, .parse], some json)

/-- `read_controls`. -/
def readControls (D : Driver δ) (J : JsonC) (io : Stdio) (stack : Params T) (w : World δ T) :
    Option (World δ T × Bool) :=
  match (readJson J io w.file).2 with
  | none => some (w, false)
  | some json => do
    let (w, changed) ← readDeviceControls D J (json.objectGet "device") w
    let (w, changed') := readDisplayControls J stack (json.objectGet "display") w
    pure (w, changed || changed')

/-- `load_file_controls`, and what it stores in `changes_loaded`. -/
def loadFileControls (D : Driver δ) (J : JsonC) (io : Stdio) (stack : Params T) (w : World δ T) :
    Option (World δ T × Bool) :=
  if w.file.isSome then readControls D J io stack w else some (w, false)

/-! ## The text read -/

variable {J : JsonC} {io : Stdio}

/-- What `json_tokener_parse` is given, if it is called. -/
def givenText (io : Stdio) : Option (List UInt8) → Option (List UInt8)
  | none => none
  | some text =>
    if io.fopen && io.fgets && decide (1 ≤ text.length) && decide (text.length ≤ 499999) then
      some ((fgets text).takeWhile (· ≠ 0))
    else none

/-- A file that is skipped, or cannot be read. -/
theorem readJson_of_none {file : Option (List UInt8)} (h : givenText io file = none) :
    (readJson J io file).2 = none ∧
      (readJson J io file).1 ∈ ([[], [.fopen, .fclose], [.fopen, .malloc, .fclose]] : List (List Call)) := by
  cases file with
  | none => exact ⟨rfl, List.mem_cons_self⟩
  | some text =>
    unfold givenText at h
    unfold readJson
    dsimp only at h ⊢
    split
    · exact ⟨rfl, List.mem_cons_self⟩
    split
    · exact ⟨rfl, List.mem_cons_of_mem _ List.mem_cons_self⟩
    split
    · exact ⟨rfl, List.mem_cons_of_mem _ List.mem_cons_self⟩
    split
    · exact ⟨rfl, List.mem_cons_of_mem _ (List.mem_cons_of_mem _ List.mem_cons_self)⟩
    · next hopen hlarge hsmall hgets =>
      rw [Bool.not_eq_true', Bool.not_eq_false] at hopen hgets
      rw [hopen, hgets, decide_eq_true (show 1 ≤ text.length by omega),
        decide_eq_true (show text.length ≤ 499999 by omega)] at h
      cases h

/-- A file that is read. -/
theorem readJson_of_some {file : Option (List UInt8)} {given : List UInt8} (h : givenText io file = some given) :
    readJson J io file =
      match J.parse given with
      | none => ([.fopen, .malloc, .fclose, .fclose, .free], none)
      | some json => ([.fopen, .malloc, .fclose, .parse], some json) := by
  cases file with
  | none => cases h
  | some text =>
    unfold givenText at h
    dsimp only at h
    split at h
    · next hread =>
      simp only [Bool.and_eq_true, decide_eq_true_eq] at hread
      obtain ⟨⟨⟨hopen, hgets⟩, h1⟩, h2⟩ := hread
      cases h
      unfold readJson
      dsimp only
      have hlarge : ¬ text.length + 1 > 500000 := by omega
      have hsmall : ¬ text.length + 1 < 2 := by omega
      cases J.parse ((fgets text).takeWhile (· ≠ 0)) with
      | none => simp only [hopen, hgets, hlarge, hsmall, Bool.not_true, Bool.false_eq_true, if_false]
      | some json => simp only [hopen, hgets, hlarge, hsmall, Bool.not_true, Bool.false_eq_true, if_false]
    · cases h

/-- The document is what is parsed of it. -/
theorem readJson_snd (file : Option (List UInt8)) : (readJson J io file).2 = (givenText io file).bind J.parse := by
  cases h : givenText io file with
  | none => exact (readJson_of_none h).1
  | some given =>
    rw [readJson_of_some h, Option.bind_some]
    cases J.parse given with
    | none => rfl
    | some json => rfl

end Camview.ControlFile
