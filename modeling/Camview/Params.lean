/-
The parameter blocks `fcc`, `bws` and `lti` and how the controls file names their
fields: one list of names where it is written, one where it is read.

The structures come from a kernel header: each field is an integer of some type of
at most 32 bits (`IntType`), and a block is a value of each field. `decode_encode`
asks of the two lists only that they pair the fields and the names alike.
-/
import Camview.Json
import Mathlib.Data.Fintype.Pi
import Mathlib.Data.Fintype.List
import Mathlib.Logic.Function.Basic

namespace Camview.ControlFile

/-! ## Integer types -/

structure IntType where
  width : Nat
  signed : Bool
  le : width ≤ 32

/-- A value as an argument of type `int32_t`. -/
def IntType.toInt32 (t : IntType) (v : BitVec t.width) : Int32 :=
  .ofBitVec (if t.signed then v.signExtend 32 else v.setWidth 32)

/-- An `int32_t` assigned to the type. -/
def IntType.ofInt32 (t : IntType) (n : Int32) : BitVec t.width := n.toBitVec.setWidth t.width

theorem IntType.ofInt32_toInt32 (t : IntType) (v : BitVec t.width) : t.ofInt32 (t.toInt32 v) = v := by
  unfold IntType.ofInt32 IntType.toInt32
  ext i hi
  have hi' : i < 32 := Nat.lt_of_lt_of_le hi t.le
  cases t.signed
  · simp [hi, hi']
  · simp [hi, hi', BitVec.getElem_signExtend]

/-! ## Records -/

/-- A value of each field, the types given by `L`. -/
abbrev Record {ι : Type} (L : ι → IntType) : Type := (f : ι) → BitVec (L f).width

section Record

variable {ι : Type} {L : ι → IntType}

/-- An object with the fields of a record under the names of `enc`. -/
def encode (enc : List (String × ι)) (r : Record L) : Json :=
  .build (enc.map fun e => (e.1, .newInt ((L e.2).toInt32 (r e.2))))

variable [DecidableEq ι]

/-- The fields of `dec` assigned one after the other, from an object. -/
def decode (J : JsonC) (json : Json) : List (ι × String) → Record L → Record L
  | [], r => r
  | (f, name) :: dec, r => decode J json dec (Function.update r f ((L f).ofInt32 ((json.objectGet name).getInt J)))

theorem decode_not_mem (J : JsonC) (json : Json) {f : ι} {dec : List (ι × String)} (h : f ∉ dec.map Prod.fst)
    (r : Record L) : decode J json dec r f = r f := by
  induction dec generalizing r with
  | nil => rfl
  | cons e dec ih =>
    obtain ⟨g, name⟩ := e
    simp only [List.map_cons, List.mem_cons, not_or] at h
    rw [decode, ih h.2, Function.update_of_ne h.1]

/-- Reading every field leaves nothing of what the fields held before. -/
theorem decode_all (J : JsonC) (json : Json) {dec : List (ι × String)} (hall : ∀ f, f ∈ dec.map Prod.fst)
    (r r' : Record L) : decode J json dec r = decode J json dec r' := by
  suffices ∀ f ∈ dec.map Prod.fst, ∀ r r' : Record L, decode J json dec r f = decode J json dec r' f from
    funext fun f => this f (hall f) r r'
  clear hall
  intro f hf
  induction dec with
  | nil => cases hf
  | cons e dec ih =>
    intro r r'
    obtain ⟨g, name⟩ := e
    by_cases hmem : f ∈ dec.map Prod.fst
    · exact ih hmem _ _
    · have hfg : f = g := (List.mem_cons.1 hf).resolve_right hmem
      subst hfg
      rw [decode, decode, decode_not_mem J json hmem, decode_not_mem J json hmem, Function.update_self,
        Function.update_self]

/-- Reading gives back what was written, whatever the fields held before, if the
names written are distinct, each field read is written under that name, and every
field is read. -/
theorem decode_encode (J : JsonC) {enc : List (String × ι)} {dec : List (ι × String)}
    (hkeys : (enc.map Prod.fst).Nodup) (hpaired : ∀ e ∈ dec, (e.2, e.1) ∈ enc) (hall : ∀ f, f ∈ dec.map Prod.fst)
    (r r₀ : Record L) : decode J (encode enc r) dec r₀ = r := by
  have hkeys : ((enc.map fun e => (e.1, Json.newInt ((L e.2).toInt32 (r e.2)))).map Prod.fst).Nodup := by
    rwa [List.map_map]
  have hread : ∀ e ∈ dec, (L e.1).ofInt32 (((encode enc r).objectGet e.2).getInt J) = r e.1 := by
    intro e he
    rw [encode, Json.objectGet_build hkeys (List.mem_map_of_mem (hpaired e he)), Json.getInt_newInt,
      IntType.ofInt32_toInt32]
  suffices ∀ f ∈ dec.map Prod.fst, ∀ r₀ : Record L, decode J (encode enc r) dec r₀ f = r f from
    funext fun f => this f (hall f) r₀
  clear hpaired hall
  intro f hf
  induction dec with
  | nil => cases hf
  | cons e dec ih =>
    intro r₀
    obtain ⟨g, name⟩ := e
    by_cases hmem : f ∈ dec.map Prod.fst
    · exact ih (fun e he => hread e (List.mem_cons_of_mem _ he)) hmem _
    · have hfg : f = g := (List.mem_cons.1 hf).resolve_right hmem
      subst hfg
      rw [decode, decode_not_mem J _ hmem, Function.update_self]
      exact hread _ List.mem_cons_self

end Record

/-! ## fcc -/

/-- The fields of `struct drm_sun4i_fcc_params`. -/
inductive FccField
  | enable | hrHueMin | hrHueMax | hgHueMin | hgHueMax | hbHueMin | hbHueMax | hcHueMin | hcHueMax | hmHueMin
  | hmHueMax | hyHueMin | hyHueMax | hrHueGain | hrSatGain | hgHueGain | hgSatGain | hbHueGain | hbSatGain
  | hcHueGain | hcSatGain | hmHueGain | hmSatGain | hyHueGain | hySatGain
deriving DecidableEq, Repr

/-- The names `get_display_ctrls_json_array` writes them under. -/
def fccNames : List (String × FccField) :=
  [("enable", .enable), ("hr_hue_min", .hrHueMin), ("hr_hue_max", .hrHueMax), ("hg_hue_min", .hgHueMin),
    ("hg_hue_max", .hgHueMax), ("hb_hue_min", .hbHueMin), ("hb_hue_max", .hbHueMax), ("hc_hue_min", .hcHueMin),
    ("hc_hue_max", .hcHueMax), ("hm_hue_min", .hmHueMin), ("hm_hue_max", .hmHueMax), ("hy_hue_min", .hyHueMin),
    ("hy_hue_max", .hyHueMax), ("hr_hue_gain", .hrHueGain), ("hr_sat_gain", .hrSatGain),
    ("hg_hue_gain", .hgHueGain), ("hg_sat_gain", .hgSatGain), ("hb_hue_gain", .hbHueGain),
    ("hb_sat_gain", .hbSatGain), ("hc_hue_gain", .hcHueGain), ("hc_sat_gain", .hcSatGain),
    ("hm_hue_gain", .hmHueGain), ("hm_sat_gain", .hmSatGain), ("hy_hue_gain", .hyHueGain),
    ("hy_sat_gain", .hySatGain)]

/-- What `read_display_controls` reads them from. -/
def fccReads : List (FccField × String) :=
  [(.enable, "enable"), (.hrHueMin, "hr_hue_min"), (.hrHueMax, "hr_hue_max"), (.hgHueMin, "hg_hue_min"),
    (.hgHueMax, "hg_hue_max"), (.hbHueMin, "hb_hue_min"), (.hbHueMax, "hb_hue_max"), (.hcHueMin, "hc_hue_min"),
    (.hcHueMax, "hc_hue_max"), (.hmHueMin, "hm_hue_min"), (.hmHueMax, "hm_hue_max"), (.hyHueMin, "hy_hue_min"),
    (.hyHueMax, "hy_hue_max"), (.hrHueGain, "hr_hue_gain"), (.hrSatGain, "hr_sat_gain"),
    (.hgHueGain, "hg_hue_gain"), (.hgSatGain, "hg_sat_gain"), (.hbHueGain, "hb_hue_gain"),
    (.hbSatGain, "hb_sat_gain"), (.hcHueGain, "hc_hue_gain"), (.hcSatGain, "hc_sat_gain"),
    (.hmHueGain, "hm_hue_gain"), (.hmSatGain, "hm_sat_gain"), (.hyHueGain, "hy_hue_gain"),
    (.hySatGain, "hy_sat_gain")]

theorem mem_fccReads (f : FccField) : f ∈ fccReads.map Prod.fst := by
  cases f <;> decide

instance : Fintype FccField := .ofList (fccReads.map Prod.fst) mem_fccReads

theorem decode_encode_fcc (J : JsonC) {L : FccField → IntType} (r r₀ : Record L) :
    decode J (encode fccNames r) fccReads r₀ = r :=
  decode_encode J (by decide) (by decide) mem_fccReads r r₀

/-! ## bws -/

/-- The fields of `struct drm_sun8i_bws_params`. -/
inductive BwsField
  | enable | min | black | white | max | slope0 | slope1 | slope2 | slope3
deriving DecidableEq, Repr

/-- The names `get_display_ctrls_json_array` writes them under. -/
def bwsNames : List (String × BwsField) :=
  [("enable", .enable), ("min", .min), ("black", .black), ("white", .white), ("max", .max), ("slope0", .slope0),
    ("slope1", .slope1), ("slope2", .slope2), ("slope3", .slope3)]

/-- What `read_display_controls` reads them from. -/
def bwsReads : List (BwsField × String) :=
  [(.enable, "enable"), (.min, "min"), (.black, "black"), (.white, "white"), (.max, "max"), (.slope0, "slope0"),
    (.slope1, "slope1"), (.slope2, "slope2"), (.slope3, "slope3")]

theorem mem_bwsReads (f : BwsField) : f ∈ bwsReads.map Prod.fst := by
  cases f <;> decide

instance : Fintype BwsField := .ofList (bwsReads.map Prod.fst) mem_bwsReads

theorem decode_encode_bws (J : JsonC) {L : BwsField → IntType} (r r₀ : Record L) :
    decode J (encode bwsNames r) bwsReads r₀ = r :=
  decode_encode J (by decide) (by decide) mem_bwsReads r r₀

/-! ## lti -/

/-- The fields of `struct drm_sun8i_lti_params`. -/
inductive LtiField
  | enable | c0 | c1 | c2 | c3 | c4 | firGain | corTh | diffOffset | diffSlope | edgeGain | coreX | clipY
  | peakLimit | winExpansion | edgeLevelTh
deriving DecidableEq, Repr

/-- The names `get_display_ctrls_json_array` writes them under. -/
def ltiNames : List (String × LtiField) :=
  [("enable", .enable), ("c0", .c0), ("c1", .c1), ("c2", .c2), ("c3", .c3), ("c4", .c4), ("fir_gain", .firGain),
    ("cor_th", .corTh), ("diff_offset", .diffOffset), ("diff_slope", .diffSlope), ("edge_gain", .edgeGain),
    ("core_x", .coreX), ("clip_y", .clipY), ("peak_limit", .peakLimit), ("win_expansion", .winExpansion),
    ("edge_level_th", .edgeLevelTh)]

/-- What `read_display_controls` reads them from. -/
def ltiReads : List (LtiField × String) :=
  [(.enable, "enable"), (.c0, "c0"), (.c1, "c1"), (.c2, "c2"), (.c3, "c3"), (.c4, "c4"), (.firGain, "fir_gain"),
    (.corTh, "cor_th"), (.diffOffset, "diff_offset"), (.diffSlope, "diff_slope"), (.edgeGain, "edge_gain"),
    (.coreX, "core_x"), (.clipY, "clip_y"), (.peakLimit, "peak_limit"), (.winExpansion, "win_expansion"),
    (.edgeLevelTh, "edge_level_th")]

theorem mem_ltiReads (f : LtiField) : f ∈ ltiReads.map Prod.fst := by
  cases f <;> decide

instance : Fintype LtiField := .ofList (ltiReads.map Prod.fst) mem_ltiReads

theorem decode_encode_lti (J : JsonC) {L : LtiField → IntType} (r r₀ : Record L) :
    decode J (encode ltiNames r) ltiReads r₀ = r :=
  decode_encode J (by decide) (by decide) mem_ltiReads r r₀

end Camview.ControlFile
