/-
What `apply_value` makes of a value from the TV: the numbers it sends to a control.

`sent_value_valid_iff` is about single values. The scaled value is only sent if it
is in the range of the control, but the ioctl is made in any case, with whatever
`ctrl.value` held; and whole steps are counted from zero, not from the minimum.

`value_mapping_monotone_iff` is about the mapping. `input_percent` grows from `min`
to `max` also if `min` is the greater of the two, so inverting it then turns the
mapping around between the ends.
-/
import Camview.ApplyValue
import Camview.CecQueue

namespace Camview.CecControls

open ControlFile

/-! ## The ranges -/

/-- The `min` and `max` of `process_contrast` to `process_shutter_speed`. -/
def callRanges : List (Int × Int) := [(0, 4096), (0, 2048), (41667, 500), (0, 0)]

/-- The messages make no other calls. -/
theorem process_range {msg : Cec.Message} {d : Cec.Data2 → UInt8} {call : Cec.ApplyValue}
    (h : (Cec.process msg d).2 = some call) :
    (call.min, call.max) ∈ callRanges ∧ 0 ≤ call.val ∧ call.val ≤ 65535 := by
  have word {k name min max} (hr : (min, max) ∈ callRanges)
      (h : ((Cec.processData2 k name min max msg d).map id some).2 = some call) :
      (call.min, call.max) ∈ callRanges ∧ 0 ≤ call.val ∧ call.val ≤ 65535 := by
    cases h
    refine ⟨hr, Int.natCast_nonneg _, ?_⟩
    show (((if msg.hasData2 ≠ 0 then Function.update d k msg.data2 else d) k).toNat <<< 8 ||| msg.data1.toNat : Nat) ≤
      (65535 : Int)
    rw [Cec.word_eq]
    have h1 := ((if msg.hasData2 ≠ 0 then Function.update d k msg.data2 else d) k).toNat_lt
    have h2 := msg.data1.toNat_lt
    omega
  unfold Cec.process at h
  split_ifs at h
  · exact word (by decide) h
  · exact word (by decide) h
  · exact word (by decide) h
  · exact word (by decide) h
  · exact word (by decide) h
  · cases h
    have := msg.data1.toNat_lt
    refine ⟨?_, ?_, ?_⟩
    · show ((0 : Int), (0 : Int)) ∈ callRanges
      decide
    · show (0 : Int) ≤ ((msg.data1.toNat : Int) - 50) * 50 + 2500
      omega
    · show ((msg.data1.toNat : Int) - 50) * 50 + 2500 ≤ 65535
      omega

/-! ## The scaled value -/

section Scaled

variable (qctrl : Queryctrl) (min max val m : Int)

/-- The length of the range. -/
def span : Int := |max - min|

/-- The image of `val` on the range of the control, times `span`. -/
def image : Int :=
  (qctrl.maximum.toInt - qctrl.minimum.toInt) * (val - Min.min min max) + qctrl.minimum.toInt * span min max

/-- The image of `val` is rounded to `m` or less: it is less than `m + 1/2`, or equal
where that is rounded away from zero. -/
def AtMost : Prop :=
  2 * image qctrl min max val < (2 * m + 1) * span min max ∨
    2 * image qctrl min max val = (2 * m + 1) * span min max ∧ m < 0

/-- It is rounded to `m` or more. -/
def AtLeast : Prop :=
  (2 * m - 1) * span min max < 2 * image qctrl min max val ∨
    2 * image qctrl min max val = (2 * m - 1) * span min max ∧ 0 < m

instance : Decidable (AtMost qctrl min max val m) := inferInstanceAs (Decidable (_ ∨ _))

instance : Decidable (AtLeast qctrl min max val m) := inferInstanceAs (Decidable (_ ∨ _))

variable {qctrl min max val m}

theorem span_pos (h : min ≠ max) : 0 < span min max := abs_pos.2 (sub_ne_zero.2 h.symm)

/-- For a descending range as well, `input_percent` is the distance from the lower
end: the division is by a negative range, and the result is then inverted. -/
theorem inputPercent_eq (h : min ≠ max) :
    inputPercent min max val = (val - Min.min min max : Int) / (span min max : Int) := by
  have hne : ((max - min : Int) : ℚ) ≠ 0 := by exact_mod_cast sub_ne_zero.2 h.symm
  unfold inputPercent span
  dsimp only
  split
  · next hlt =>
    rw [abs_of_neg (by omega), min_eq_right hlt.le, eq_div_iff (by exact_mod_cast (by omega : -(max - min) ≠ 0))]
    field_simp
    push_cast
    ring
  · next hle => rw [abs_of_nonneg (by omega), min_eq_left (by omega)]

theorem roundedOutput_eq (h : min ≠ max) :
    roundedOutput qctrl min max val = roundAway ((image qctrl min max val : ℚ) / span min max) := by
  have hne : (span min max : ℚ) ≠ 0 := by exact_mod_cast (span_pos h).ne'
  unfold roundedOutput image
  rw [inputPercent_eq h]
  congr 1
  push_cast
  field_simp

theorem roundedOutput_le_iff (h : min ≠ max) : roundedOutput qctrl min max val ≤ m ↔ AtMost qctrl min max val m := by
  rw [roundedOutput_eq h]
  exact roundAway_div_le_iff (span_pos h)

theorem le_roundedOutput_iff (h : min ≠ max) : m ≤ roundedOutput qctrl min max val ↔ AtLeast qctrl min max val m := by
  rw [roundedOutput_eq h]
  exact le_roundAway_div_iff (span_pos h)

end Scaled

/-! ## What is sent -/

variable {δ : Type} {T : ParamTypes} {D : Driver δ} {w : World δ T} {qctrl : Queryctrl} {call : Cec.ApplyValue}

/-- `apply_value` issues `VIDIOC_S_CTRL` with this value, whatever `ctrl.value` held
before. -/
def Sends (D : Driver δ) (w : World δ T) (call : Cec.ApplyValue) (value : Int32) : Prop :=
  ∀ unset, (applyValue D unset call w).1.ioctls = w.ioctls ++ [.sCtrl 1 value]

theorem sends_iff {name : String} {min max val : Int} (h : found D w.device name = some qctrl) {value : Int32} :
    Sends D w ⟨name, min, max, val⟩ value ↔ ctrlValue qctrl min max val = some value := by
  have hioctls (unset : Int32) : (applyValue D unset ⟨name, min, max, val⟩ w).1.ioctls =
      w.ioctls ++ [.sCtrl 1 ((ctrlValue qctrl min max val).getD unset)] := by
    rw [applyValue_of_some unset ⟨name, min, max, val⟩ h, sentValue, h]
    rfl
  unfold Sends
  simp only [hioctls, List.append_cancel_left_eq, List.cons.injEq, Ioctl.sCtrl.injEq, true_and, and_true]
  cases ctrlValue qctrl min max val with
  | none =>
    refine iff_of_false (fun hall => ?_) (Option.some_ne_none value).symm
    have h0 : (0 : Int32) = value := hall 0
    have h1 : (1 : Int32) = value := hall 1
    exact absurd (h0.trans h1.symm) (by decide)
  | some v => exact ⟨fun hall => congrArg some (hall 0), fun he _ => Option.some.inj he⟩

/-- A value the control can have: its maximum, or some steps from its minimum. -/
structure ValidSetting (qctrl : Queryctrl) (value : Int32) : Prop where
  lower : qctrl.minimum.toInt ≤ value.toInt
  upper : value.toInt ≤ qctrl.maximum.toInt
  steps : value = qctrl.maximum ∨ ∃ k : Nat, value.toInt = qctrl.minimum.toInt + k * qctrl.step.toInt

/-- A scaled value is sent, and is valid. -/
structure ScaledOk (qctrl : Queryctrl) (min max val : Int) : Prop where
  range : qctrl.maximum.toInt - qctrl.minimum.toInt < 2 ^ 31
  lower : AtLeast qctrl min max val qctrl.minimum.toInt
  upper : AtMost qctrl min max val qctrl.maximum.toInt
  steps : qctrl.step.toInt ∣ qctrl.minimum.toInt ∧
        (0 ≤ qctrl.maximum.toInt ∨
          AtMost qctrl min max val (qctrl.maximum.toInt / qctrl.step.toInt * qctrl.step.toInt)) ∨
      qctrl.step.toInt ∣ qctrl.maximum.toInt ∧
        AtLeast qctrl min max val
          (if 0 < qctrl.maximum.toInt then qctrl.maximum.toInt else qctrl.maximum.toInt - qctrl.step.toInt + 1)

instance (qctrl : Queryctrl) (min max val : Int) : Decidable (ScaledOk qctrl min max val) :=
  decidable_of_iff (_ ∧ _ ∧ _ ∧ _) ⟨fun h => ⟨h.1, h.2.1, h.2.2.1, h.2.2.2⟩, fun h => ⟨h.1, h.2, h.3, h.4⟩⟩

/-- A value passed on or at an end of its range is valid where it is limited; others
where whole steps from zero are whole steps from the minimum, or get to the maximum. -/
def SettingOk (qctrl : Queryctrl) (min max val : Int) : Prop :=
  if min = 0 ∧ max = 0 then
    val ≤ qctrl.minimum.toInt ∨ qctrl.maximum.toInt ≤ val ∨ qctrl.step.toInt ∣ qctrl.minimum.toInt
  else val = min ∨ val = max ∨ ScaledOk qctrl min max val

instance (qctrl : Queryctrl) (min max val : Int) : Decidable (SettingOk qctrl min max val) :=
  inferInstanceAs (Decidable (ite _ _ _))

theorem validSetting_minimum (h : qctrl.minimum.toInt ≤ qctrl.maximum.toInt) : ValidSetting qctrl qctrl.minimum :=
  ⟨le_refl _, h, .inr ⟨0, by simp⟩⟩

theorem validSetting_maximum (h : qctrl.minimum.toInt ≤ qctrl.maximum.toInt) : ValidSetting qctrl qctrl.maximum :=
  ⟨h, le_refl _, .inl rfl⟩

/-- Rounding toward zero keeps an `int`. -/
theorem fitsInt_towardZero {s x : Int} (hs : 0 < s) (hx : FitsInt x) : FitsInt (towardZero s x) := by
  unfold FitsInt at hx ⊢
  rcases le_total 0 x with h | h
  · obtain ⟨h1, h2, -⟩ := towardZero_of_nonneg hs h
    omega
  · obtain ⟨h1, h2, -⟩ := towardZero_of_nonpos hs h
    omega

/-- With a step that is positive nothing overflows. -/
theorem wholeSteps_eq (hs : 0 < qctrl.step.toInt) {x : Int} (hx : FitsInt x) :
    ∃ value, wholeSteps qctrl x = some value ∧ value.toInt = towardZero qctrl.step.toInt x := by
  obtain ⟨hlow, hhigh⟩ := fitsInt_towardZero hs hx
  have hstep : qctrl.step ≠ 0 := by
    intro h
    rw [h] at hs
    exact absurd hs (by decide)
  have hsteps : FitsInt (x.tdiv qctrl.step.toInt) := by
    have habs := Int.natAbs_tdiv_le_natAbs x qctrl.step.toInt
    have hnonneg : 0 ≤ x → 0 ≤ x.tdiv qctrl.step.toInt := fun h => Int.tdiv_nonneg h hs.le
    have hnonpos : 0 ≤ -x → 0 ≤ -x.tdiv qctrl.step.toInt := fun h => Int.neg_tdiv .. ▸ Int.tdiv_nonneg h hs.le
    unfold FitsInt at hx ⊢
    omega
  refine ⟨.ofInt (towardZero qctrl.step.toInt x), ?_, Int32.toInt_ofInt_of_le (by omega) (by omega)⟩
  unfold wholeSteps
  exact if_neg (not_or.2 ⟨hstep, not_not.2 hsteps⟩)

/-- Whole steps from zero, for a value in the range of the control. -/
theorem validSetting_wholeSteps (hs : 0 < qctrl.step.toInt) {x : Int} (hlow : qctrl.minimum.toInt ≤ x)
    (hhigh : x ≤ qctrl.maximum.toInt) :
    (∃ value, wholeSteps qctrl x = some value ∧ ValidSetting qctrl value) ↔
      qctrl.step.toInt ∣ qctrl.minimum.toInt ∧
          (0 ≤ qctrl.maximum.toInt ∨ x ≤ qctrl.maximum.toInt / qctrl.step.toInt * qctrl.step.toInt) ∨
        qctrl.step.toInt ∣ qctrl.maximum.toInt ∧
          (if 0 < qctrl.maximum.toInt then qctrl.maximum.toInt
            else qctrl.maximum.toInt - qctrl.step.toInt + 1) ≤ x := by
  have hmin := qctrl.minimum.le_toInt
  have hmax := qctrl.maximum.toInt_lt
  obtain ⟨value, hvalue, htoward⟩ := wholeSteps_eq hs (x := x) ⟨by omega, by omega⟩
  simp only [hvalue, Option.some.injEq, exists_eq_left']
  rw [← towardZero_steps_iff hs hlow hhigh, ← htoward, Int32.toInt_inj]
  constructor
  · intro h
    refine ⟨h.lower, h.upper, h.steps.imp_right fun hk => ?_⟩
    obtain ⟨k, hk⟩ := hk
    exact ⟨k, by rw [hk]; ring⟩
  · intro h
    obtain ⟨hl, hu, hsteps⟩ := h
    refine ⟨hl, hu, hsteps.imp_right fun hk => ?_⟩
    obtain ⟨k, hk⟩ := hk
    -- The steps are not taken downwards.
    have hk0 : 0 ≤ k := by
      by_contra hneg
      have := mul_neg_of_pos_of_neg hs (not_le.1 hneg)
      omega
    refine ⟨k.toNat, ?_⟩
    rw [Int.toNat_of_nonneg hk0, mul_comm]
    omega

/-- The value that is scaled. -/
theorem ctrlValue_scaled {min max val : Int} (hmin : FitsInt (max - min)) (hval : FitsInt (val - min))
    (h0 : ¬ (min = 0 ∧ max = 0))
    (h1 : val ≠ min) (h2 : val ≠ max) :
    ctrlValue qctrl min max val =
      if FitsInt (qctrl.maximum.toInt - qctrl.minimum.toInt) ∧ qctrl.minimum.toInt ≤ roundedOutput qctrl min max val ∧
          roundedOutput qctrl min max val ≤ qctrl.maximum.toInt then
        wholeSteps qctrl (roundedOutput qctrl min max val)
      else none := by
  unfold ctrlValue
  rw [if_neg (not_not.2 ⟨hmin, hval⟩), if_neg h0, if_neg h1, if_neg h2]
  by_cases hf : FitsInt (qctrl.maximum.toInt - qctrl.minimum.toInt)
  · rw [if_neg (not_not.2 hf)]
    simp only [hf, true_and]
  · rw [if_pos hf, if_neg fun h => hf h.1]

/-- A value that is passed on is limited, and put on whole steps in between. -/
theorem passedOn_valid_iff {min max val : Int} (hmin : FitsInt (max - min)) (hval : FitsInt (val - min))
    (h0 : min = 0 ∧ max = 0) (hval0 : 0 ≤ val) (hle : qctrl.minimum.toInt ≤ qctrl.maximum.toInt)
    (hs : 0 < qctrl.step.toInt) :
    (∃ value, ctrlValue qctrl min max val = some value ∧ ValidSetting qctrl value) ↔
      val ≤ qctrl.minimum.toInt ∨ qctrl.maximum.toInt ≤ val ∨ qctrl.step.toInt ∣ qctrl.minimum.toInt := by
  unfold ctrlValue
  rw [if_neg (not_not.2 ⟨hmin, hval⟩), if_pos h0]
  split
  · next hlow => exact iff_of_true ⟨_, rfl, validSetting_minimum hle⟩ (.inl hlow)
  split
  · next hhigh => exact iff_of_true ⟨_, rfl, validSetting_maximum hle⟩ (.inr (.inl hhigh))
  · next hlow hhigh =>
    simp only [hlow, hhigh, false_or]
    rw [validSetting_wholeSteps hs (by omega) (by omega)]
    constructor
    · intro h
      rcases h with h | ⟨-, h⟩
      · exact h.1
      · split at h
        · omega
        · omega
    · intro h
      exact .inl ⟨h, .inl (by omega)⟩

theorem scaled_valid_iff {min max val : Int} (hmin : FitsInt (max - min)) (hval : FitsInt (val - min))
    (hne : min ≠ max) (h1 : val ≠ min) (h2 : val ≠ max) (hle : qctrl.minimum.toInt ≤ qctrl.maximum.toInt)
    (hs : 0 < qctrl.step.toInt) :
    (∃ value, ctrlValue qctrl min max val = some value ∧ ValidSetting qctrl value) ↔ ScaledOk qctrl min max val := by
  have h0 : ¬ (min = 0 ∧ max = 0) := fun h => hne (h.1.trans h.2.symm)
  rw [ctrlValue_scaled hmin hval h0 h1 h2]
  have hrange : FitsInt (qctrl.maximum.toInt - qctrl.minimum.toInt) ↔
      qctrl.maximum.toInt - qctrl.minimum.toInt < 2 ^ 31 := by
    unfold FitsInt
    omega
  constructor
  · intro h
    obtain ⟨value, hv, hvalid⟩ := h
    split at hv
    · next hin =>
      obtain ⟨hfit, hlow, hhigh⟩ := hin
      have hsteps := (validSetting_wholeSteps hs hlow hhigh).1 ⟨value, hv, hvalid⟩
      rw [roundedOutput_le_iff hne, le_roundedOutput_iff hne] at hsteps
      exact ⟨hrange.1 hfit, (le_roundedOutput_iff hne).1 hlow, (roundedOutput_le_iff hne).1 hhigh, hsteps⟩
    · cases hv
  · intro h
    have hlow := (le_roundedOutput_iff hne).2 h.lower
    have hhigh := (roundedOutput_le_iff hne).2 h.upper
    rw [if_pos ⟨hrange.2 h.range, hlow, hhigh⟩]
    rw [validSetting_wholeSteps hs hlow hhigh, roundedOutput_le_iff hne, le_roundedOutput_iff hne]
    exact h.steps

/-- What is computed is valid, for the ranges the messages use. -/
theorem ctrlValue_valid_iff {min max val : Int} (hrange : (min, max) ∈ callRanges) (hval : 0 ≤ val ∧ val ≤ 65535)
    (hle : qctrl.minimum.toInt ≤ qctrl.maximum.toInt) (hs : 0 < qctrl.step.toInt) :
    (∃ value, ctrlValue qctrl min max val = some value ∧ ValidSetting qctrl value) ↔ SettingOk qctrl min max val := by
  have hfits : FitsInt (max - min) ∧ FitsInt (val - min) := by
    simp only [callRanges, List.mem_cons, Prod.mk.injEq, List.not_mem_nil, or_false] at hrange
    unfold FitsInt
    omega
  have hne : ¬ (min = 0 ∧ max = 0) → min ≠ max := by
    simp only [callRanges, List.mem_cons, Prod.mk.injEq, List.not_mem_nil, or_false] at hrange
    omega
  unfold SettingOk
  split
  · next h0 => exact passedOn_valid_iff hfits.1 hfits.2 h0 hval.1 hle hs
  · next h0 =>
    by_cases h1 : val = min
    · have hv : ctrlValue qctrl min max val = some qctrl.minimum := by
        unfold ctrlValue
        rw [if_neg (not_not.2 hfits), if_neg h0, if_pos h1]
      exact iff_of_true ⟨_, hv, validSetting_minimum hle⟩ (.inl h1)
    by_cases h2 : val = max
    · have hv : ctrlValue qctrl min max val = some qctrl.maximum := by
        unfold ctrlValue
        rw [if_neg (not_not.2 hfits), if_neg h0, if_neg h1, if_pos h2]
      exact iff_of_true ⟨_, hv, validSetting_maximum hle⟩ (.inr (.inl h2))
    simp only [h1, h2, false_or]
    exact scaled_valid_iff hfits.1 hfits.2 (hne h0) h1 h2 hle hs

/-- **When a valid value is sent**, for every control and every value, in the ranges
the messages use. -/
theorem sent_value_valid_iff (hfound : found D w.device call.name = some qctrl)
    (hrange : (call.min, call.max) ∈ callRanges) (hval : 0 ≤ call.val ∧ call.val ≤ 65535)
    (hle : qctrl.minimum.toInt ≤ qctrl.maximum.toInt) (hstep : 1 ≤ qctrl.step.toInt) :
    (∃ value, Sends D w call value ∧ ValidSetting qctrl value) ↔ SettingOk qctrl call.min call.max call.val := by
  obtain ⟨name, min, max, val⟩ := call
  rw [← ctrlValue_valid_iff hrange hval hle hstep]
  simp only [sends_iff hfound]

theorem found_contrast : found (camera "Contrast") cameraWorld.device "Contrast" = some (byteControl "Contrast") := by
  decide +kernel

/-- The middle of the range is sent as 128. -/
theorem sent_value_valid_iff_sample :
    ∃ value, Sends (camera "Contrast") cameraWorld ⟨"Contrast", 0, 4096, 2048⟩ value ∧
      ValidSetting (byteControl "Contrast") value :=
  have hfound : found (camera "Contrast") cameraWorld.device (Cec.ApplyValue.mk "Contrast" 0 4096 2048).name =
      some (byteControl "Contrast") := found_contrast
  (sent_value_valid_iff hfound (by decide) (by decide) (by decide) (by decide)).2 (by decide +kernel)

/-- For a value above the range nothing is assigned: what is sent is what was there. -/
theorem not_sent_value_valid :
    (¬ ∃ value, Sends (camera "Contrast") cameraWorld ⟨"Contrast", 0, 4096, 5000⟩ value) ∧
      ∀ unset, (applyValue (camera "Contrast") unset ⟨"Contrast", 0, 4096, 5000⟩ cameraWorld).1.ioctls =
        [.sCtrl 1 unset] := by
  have hnone : ctrlValue (byteControl "Contrast") 0 4096 5000 = none := by decide +kernel
  constructor
  · intro h
    obtain ⟨value, hsends⟩ := h
    exact Option.some_ne_none value (((sends_iff found_contrast).1 hsends).symm.trans hnone)
  · intro unset
    rw [applyValue_of_some unset ⟨"Contrast", 0, 4096, 5000⟩ found_contrast, sentValue, found_contrast]
    show [Ioctl.sCtrl 1 ((ctrlValue (byteControl "Contrast") 0 4096 5000).getD unset)] = _
    rw [hnone]
    rfl

/-! ## The mapping -/

/-- The values from `min` to `max` go to values of the control from its minimum to its
maximum, the nearer to `min` the less. -/
structure MapsMonotone (D : Driver δ) (w : World δ T) (name : String) (qctrl : Queryctrl) (min max : Int) : Prop where
  first : Sends D w ⟨name, min, max, min⟩ qctrl.minimum
  last : Sends D w ⟨name, min, max, max⟩ qctrl.maximum
  mono : ∀ a b, Min.min min max ≤ a → a ≤ Max.max min max → Min.min min max ≤ b → b ≤ Max.max min max →
    |a - min| ≤ |b - min| → ∃ u v, Sends D w ⟨name, min, max, a⟩ u ∧ Sends D w ⟨name, min, max, b⟩ v ∧ u ≤ v

/-- The range ascends, or it is so small that turning it around is not seen: nothing
is between its ends but one value, or values that are rounded alike. -/
structure Ascends (qctrl : Queryctrl) (min max : Int) : Prop where
  range : FitsInt (max - min)
  output : span min max = 1 ∨ qctrl.maximum.toInt - qctrl.minimum.toInt < 2 ^ 31
  order : min < max ∨ min - max ≤ 2 ∨ qctrl.maximum.toInt = qctrl.minimum.toInt ∨
    min - max = 3 ∧ qctrl.maximum.toInt - qctrl.minimum.toInt = 2

section Monotone

variable {min max val a b : Int}

theorem image_mono (hle : qctrl.minimum.toInt ≤ qctrl.maximum.toInt) (h : a ≤ b) :
    image qctrl min max a ≤ image qctrl min max b := by
  unfold image
  have := mul_le_mul_of_nonneg_left (show a - Min.min min max ≤ b - Min.min min max by omega)
    (show 0 ≤ qctrl.maximum.toInt - qctrl.minimum.toInt by omega)
  omega

theorem roundedOutput_mono (hne : min ≠ max) (hle : qctrl.minimum.toInt ≤ qctrl.maximum.toInt) (h : a ≤ b) :
    roundedOutput qctrl min max a ≤ roundedOutput qctrl min max b := by
  rw [roundedOutput_eq hne, roundedOutput_eq hne]
  refine roundAway_mono ?_
  have hspan : (0 : ℚ) < span min max := by exact_mod_cast span_pos hne
  rw [div_le_div_iff_of_pos_right hspan]
  exact_mod_cast image_mono hle h

/-- Between the ends of the range it stays in the range of the control. -/
theorem roundedOutput_mem (hne : min ≠ max) (hle : qctrl.minimum.toInt ≤ qctrl.maximum.toInt)
    (h1 : Min.min min max ≤ val)
    (h2 : val ≤ Max.max min max) :
    qctrl.minimum.toInt ≤ roundedOutput qctrl min max val ∧ roundedOutput qctrl min max val ≤ qctrl.maximum.toInt := by
  have hspan := span_pos hne
  have himage : qctrl.minimum.toInt * span min max ≤ image qctrl min max val ∧
      image qctrl min max val ≤ qctrl.maximum.toInt * span min max := by
    have hlen : Max.max min max - Min.min min max = span min max := max_sub_min_eq_abs min max
    unfold image
    constructor
    · have := mul_nonneg (show 0 ≤ qctrl.maximum.toInt - qctrl.minimum.toInt by omega)
        (show 0 ≤ val - Min.min min max by omega)
      omega
    · have := mul_le_mul_of_nonneg_left (show val - Min.min min max ≤ span min max by omega)
        (show 0 ≤ qctrl.maximum.toInt - qctrl.minimum.toInt by omega)
      have hsub := sub_mul qctrl.maximum.toInt qctrl.minimum.toInt (span min max)
      omega
  rw [roundedOutput_le_iff hne, le_roundedOutput_iff hne]
  unfold AtMost AtLeast
  constructor
  · left
    rw [sub_mul, mul_assoc]
    omega
  · left
    rw [add_mul, mul_assoc]
    omega

/-- The values at the ends. -/
theorem ctrlValue_first (hfits : FitsInt (max - min)) (hne : min ≠ max) :
    ctrlValue qctrl min max min = some qctrl.minimum := by
  unfold ctrlValue
  rw [if_neg (not_not.2 ⟨hfits, by rw [sub_self]; decide⟩), if_neg (by omega), if_pos rfl]

theorem ctrlValue_last (hfits : FitsInt (max - min)) (hne : min ≠ max) :
    ctrlValue qctrl min max max = some qctrl.maximum := by
  unfold ctrlValue
  rw [if_neg (not_not.2 ⟨hfits, hfits⟩), if_neg (by omega), if_neg hne.symm, if_pos rfl]

/-- The values between them, with a step of 1. -/
theorem ctrlValue_between (hfits : FitsInt (max - min)) (hle : qctrl.minimum.toInt ≤ qctrl.maximum.toInt)
    (hstep : qctrl.step.toInt = 1) (h1 : Min.min min max < val) (h2 : val < Max.max min max) {value : Int32} :
    ctrlValue qctrl min max val = some value ↔
      qctrl.maximum.toInt - qctrl.minimum.toInt < 2 ^ 31 ∧ value.toInt = roundedOutput qctrl min max val := by
  have hmin := qctrl.minimum.le_toInt
  have hmax := qctrl.maximum.toInt_lt
  have hmem := roundedOutput_mem (show min ≠ max by omega) hle h1.le h2.le
  have hval : FitsInt (val - min) := by
    unfold FitsInt at hfits ⊢
    omega
  have hrange : FitsInt (qctrl.maximum.toInt - qctrl.minimum.toInt) ↔
    qctrl.maximum.toInt - qctrl.minimum.toInt < 2 ^ 31 := by
    unfold FitsInt
    omega
  have hs : 0 < qctrl.step.toInt := by omega
  have hfit : FitsInt (roundedOutput qctrl min max val) := ⟨by omega, by omega⟩
  obtain ⟨v, hv, hwhole⟩ := wholeSteps_eq hs hfit
  rw [hstep, towardZero, Int.tdiv_one, mul_one] at hwhole
  rw [ctrlValue_scaled hfits hval (by omega) (by omega) (by omega), ← hrange]
  by_cases hf : FitsInt (qctrl.maximum.toInt - qctrl.minimum.toInt)
  · rw [if_pos ⟨hf, hmem⟩, hv, Option.some.injEq, and_iff_right hf]
    constructor
    · intro he
      rw [← he, hwhole]
    · intro he
      exact Int32.toInt_inj.1 (hwhole.trans he.symm)
  · rw [if_neg fun h => hf h.1]
    exact iff_of_false (Option.some_ne_none value).symm fun h => hf h.1

/-- Two images of a range of `n` values, one from each end, that are rounded to a value
`k` in the wrong order. -/
theorem eq_of_turned {r m n k : Int} (hn : 3 ≤ n) (hr : 0 < r)
    (hupper : 2 * (r * (n - 1) + m * n) < (2 * k + 1) * n ∨ 2 * (r * (n - 1) + m * n) = (2 * k + 1) * n ∧ k < 0)
    (hlower : (2 * k - 1) * n < 2 * (r * 1 + m * n) ∨ 2 * (r * 1 + m * n) = (2 * k - 1) * n ∧ 0 < k) :
    n = 3 ∧ r = 2 := by
  -- The images are less than 1 apart.
  have hclose : r * (n - 2) < n := by
    rcases hupper with hu | ⟨hu, hk⟩
    · rcases hlower with hl | ⟨hl, -⟩
      · linarith
      · linarith
    · rcases hlower with hl | ⟨-, hk'⟩
      · linarith
      · omega
  have hupper' : 2 * r * (n - 1) ≤ (2 * (k - m) + 1) * n := by
    rcases hupper with hu | ⟨hu, -⟩
    · linarith
    · linarith
  have hlower' : (2 * (k - m) - 1) * n ≤ 2 * r := by
    rcases hlower with hl | ⟨hl, -⟩
    · linarith
    · linarith
  have hr2 : r ≤ 2 := by
    by_contra hlt
    have := mul_le_mul_of_nonneg_right (show 3 ≤ r by omega) (show 0 ≤ n - 2 by omega)
    omega
  generalize k - m = p at hupper' hlower'
  obtain rfl | rfl : r = 1 ∨ r = 2 := by omega
  · -- They are on both sides of a half.
    exfalso
    rcases le_or_gt p 0 with hp | hp
    · have := mul_le_mul_of_nonneg_right (show 2 * p + 1 ≤ 1 by omega) (show 0 ≤ n by omega)
      omega
    · have := mul_le_mul_of_nonneg_right (show 1 ≤ 2 * p - 1 by omega) (show 0 ≤ n by omega)
      omega
  · omega

/-- Turned around, values next to the ends are only in order if they are rounded
alike. -/
theorem span_of_turned (hlt : max < min) (h3 : 3 ≤ min - max) (hr : qctrl.minimum.toInt < qctrl.maximum.toInt)
    (h : roundedOutput qctrl min max (min - 1) ≤ roundedOutput qctrl min max (max + 1)) :
    min - max = 3 ∧ qctrl.maximum.toInt - qctrl.minimum.toInt = 2 := by
  have hne : min ≠ max := by omega
  have hspan : span min max = min - max := by
    unfold span
    rw [abs_of_neg (by omega)]
    omega
  have hlow : Min.min min max = max := min_eq_right hlt.le
  have hupper := (roundedOutput_le_iff hne).1 h
  have hlower : AtLeast qctrl min max (max + 1) (roundedOutput qctrl min max (max + 1)) :=
    (le_roundedOutput_iff hne).1 (le_refl _)
  generalize roundedOutput qctrl min max (max + 1) = k at hupper hlower
  unfold AtMost image at hupper
  unfold AtLeast image at hlower
  rw [hspan, hlow] at hupper hlower
  generalize hR : qctrl.maximum.toInt - qctrl.minimum.toInt = r at *
  generalize hM : qctrl.minimum.toInt = m at *
  obtain ⟨n, hn⟩ : ∃ n, min - max = n := ⟨_, rfl⟩
  rw [show min - 1 - max = n - 1 by omega, hn] at hupper
  rw [show max + 1 - max = 1 by omega, hn] at hlower
  rw [hn]
  exact eq_of_turned (by omega) (by omega) hupper hlower

/-- Three apart, with three values to go to, both between the ends go to the middle. -/
theorem roundedOutput_of_turned (hn : min - max = 3) (hr : qctrl.maximum.toInt - qctrl.minimum.toInt = 2)
    (h1 : max < val)
    (h2 : val < min) : roundedOutput qctrl min max val = qctrl.minimum.toInt + 1 := by
  have hne : min ≠ max := by omega
  have hspan : span min max = 3 := by
    unfold span
    rw [abs_of_neg (by omega)]
    omega
  have hlow : Min.min min max = max := min_eq_right (by omega)
  refine le_antisymm ((roundedOutput_le_iff hne).2 ?_) ((le_roundedOutput_iff hne).2 ?_)
  · left
    unfold image
    rw [hspan, hlow, hr]
    omega
  · left
    unfold image
    rw [hspan, hlow, hr]
    omega

/-- With one value not at the lower end and the other not at the upper one, neither is
at an end, in their order. -/
theorem inner_of_abs_le (hne : min ≠ max) (hb1 : Min.min min max ≤ b) (hb2 : b ≤ Max.max min max)
    (hab : |a - min| ≤ |b - min|) (ha : a ≠ min) (hb : b ≠ max) : a ≠ max ∧ b ≠ min := by
  constructor
  · intro he
    rw [he] at hab
    rcases lt_or_gt_of_ne hne with hlt | hgt
    · rw [abs_of_nonneg (by omega), abs_of_nonneg (by omega)] at hab
      omega
    · rw [abs_of_nonpos (by omega), abs_of_nonpos (by omega)] at hab
      omega
  · intro he
    rw [he, sub_self, abs_zero, abs_nonpos_iff] at hab
    omega

/-- What is sent for a value in the range. -/
theorem exists_ctrlValue (h : Ascends qctrl min max) (hne : min ≠ max) (hle : qctrl.minimum.toInt ≤ qctrl.maximum.toInt)
    (hstep : qctrl.step.toInt = 1) (h1 : Min.min min max ≤ val) (h2 : val ≤ Max.max min max) :
    ∃ value, ctrlValue qctrl min max val = some value ∧ qctrl.minimum.toInt ≤ value.toInt ∧
      value.toInt ≤ qctrl.maximum.toInt ∧ (val = max → value = qctrl.maximum) ∧
      (val ≠ min → val ≠ max → value.toInt = roundedOutput qctrl min max val) := by
  by_cases hfirst : val = min
  · subst hfirst
    exact ⟨_, ctrlValue_first h.range hne, le_refl _, hle, fun he => absurd he hne, fun hn => absurd rfl hn⟩
  by_cases hlast : val = max
  · subst hlast
    exact ⟨_, ctrlValue_last h.range hne, hle, le_refl _, fun _ => rfl, fun _ hn => absurd rfl hn⟩
  have hmin := qctrl.minimum.le_toInt
  have hmax := qctrl.maximum.toInt_lt
  obtain ⟨hlow, hhigh⟩ := roundedOutput_mem hne hle h1 h2
  have hvalue : (Int32.ofInt (roundedOutput qctrl min max val)).toInt = roundedOutput qctrl min max val :=
    Int32.toInt_ofInt_of_le (by omega) (by omega)
  have hlen : Max.max min max - Min.min min max = span min max := max_sub_min_eq_abs min max
  have houtput : qctrl.maximum.toInt - qctrl.minimum.toInt < 2 ^ 31 := h.output.resolve_left fun h1 => by omega
  refine ⟨.ofInt (roundedOutput qctrl min max val), ?_, by omega, by omega, fun he => absurd he hlast,
    fun _ _ => hvalue⟩
  exact (ctrlValue_between h.range hle hstep (by omega) (by omega)).2 ⟨houtput, hvalue⟩

/-- Between the ends the values are in order. -/
theorem Ascends.roundedOutput_le (h : Ascends qctrl min max) (hne : min ≠ max)
    (hle : qctrl.minimum.toInt ≤ qctrl.maximum.toInt)
    (ha1 : Min.min min max < a) (ha2 : a < Max.max min max) (hb1 : Min.min min max < b) (hb2 : b < Max.max min max)
    (hab : |a - min| ≤ |b - min|) : roundedOutput qctrl min max a ≤ roundedOutput qctrl min max b := by
  by_cases hlt : min < max
  · refine roundedOutput_mono hne hle ?_
    rw [abs_of_nonneg (by omega), abs_of_nonneg (by omega)] at hab
    omega
  rcases h.order.resolve_left hlt with hsmall | hconst | ⟨hn, hr⟩
  · rw [show a = b by omega]
  · have ha := roundedOutput_mem hne hle ha1.le ha2.le
    have hb := roundedOutput_mem hne hle hb1.le hb2.le
    omega
  · rw [roundedOutput_of_turned hn hr (by omega) (by omega), roundedOutput_of_turned hn hr (by omega) (by omega)]

end Monotone

/-- **When the mapping is monotone**, for every range and every control with a step of
1. -/
theorem value_mapping_monotone_iff {name : String} {min max : Int} (hfound : found D w.device name = some qctrl)
    (hle : qctrl.minimum.toInt ≤ qctrl.maximum.toInt) (hstep : qctrl.step.toInt = 1) (hne : min ≠ max) :
    MapsMonotone D w name qctrl min max ↔ Ascends qctrl min max := by
  constructor
  · intro h
    have hfits : FitsInt (max - min) := by
      have hfirst := (sends_iff hfound).1 h.first
      unfold ctrlValue at hfirst
      split at hfirst
      · cases hfirst
      · next hn => exact (not_not.1 hn).1
    have hlen : Max.max min max - Min.min min max = span min max := max_sub_min_eq_abs min max
    have hspan := span_pos hne
    refine ⟨hfits, ?_, ?_⟩
    · by_cases h1 : span min max = 1
      · exact .inl h1
      · obtain ⟨u, -, hu, -⟩ := h.mono (Min.min min max + 1) (Min.min min max + 1) (by omega) (by omega) (by omega)
          (by omega) (le_refl _)
        exact .inr ((ctrlValue_between hfits hle hstep (by omega) (by omega)).1 ((sends_iff hfound).1 hu)).1
    · by_cases hlt : min < max
      · exact .inl hlt
      by_cases hsmall : min - max ≤ 2
      · exact .inr (.inl hsmall)
      by_cases hconst : qctrl.maximum.toInt = qctrl.minimum.toInt
      · exact .inr (.inr (.inl hconst))
      obtain ⟨u, v, hu, hv, huv⟩ := h.mono (min - 1) (max + 1) (by omega) (by omega) (by omega) (by omega) (by
        rw [abs_of_neg (by omega), abs_of_neg (by omega)]
        omega)
      obtain ⟨-, hu⟩ := (ctrlValue_between hfits hle hstep (by omega) (by omega)).1 ((sends_iff hfound).1 hu)
      obtain ⟨-, hv⟩ := (ctrlValue_between hfits hle hstep (by omega) (by omega)).1 ((sends_iff hfound).1 hv)
      rw [Int32.le_iff_toInt_le, hu, hv] at huv
      exact .inr (.inr (.inr (span_of_turned (by omega) (by omega) (by omega) huv)))
  · intro h
    refine ⟨(sends_iff hfound).2 (ctrlValue_first h.range hne), (sends_iff hfound).2 (ctrlValue_last h.range hne), ?_⟩
    intro a b ha1 ha2 hb1 hb2 hab
    obtain ⟨u, hu, hulow, huhigh, -, huout⟩ := exists_ctrlValue h hne hle hstep ha1 ha2
    obtain ⟨v, hv, hvlow, -, hvlast, hvout⟩ := exists_ctrlValue h hne hle hstep hb1 hb2
    refine ⟨u, v, (sends_iff hfound).2 hu, (sends_iff hfound).2 hv, ?_⟩
    rw [Int32.le_iff_toInt_le]
    by_cases hamin : a = min
    · subst hamin
      rw [ctrlValue_first h.range hne, Option.some.injEq] at hu
      rw [← hu]
      exact hvlow
    by_cases hbmax : b = max
    · rw [hvlast hbmax]
      exact huhigh
    obtain ⟨hamax, hbmin⟩ := inner_of_abs_le hne hb1 hb2 hab hamin hbmax
    rw [huout hamin hamax, hvout hbmin hbmax]
    exact h.roundedOutput_le hne hle (by omega) (by omega) (by omega) (by omega) hab

/-- The range of the contrast. -/
theorem value_mapping_monotone_iff_sample :
    MapsMonotone (camera "Contrast") cameraWorld "Contrast" (byteControl "Contrast") 0 4096 :=
  (value_mapping_monotone_iff found_contrast (by decide) (by decide) (by decide)).2
    ⟨by decide, .inr (by decide), .inl (by decide)⟩

/-- In the range of the shutter speed, the value next to the upper end comes to the
maximum and the one next to the lower end to the minimum, each beside its opposite. -/
theorem not_value_mapping_monotone :
    ¬ MapsMonotone (camera "Gain") cameraWorld "Gain" (byteControl "Gain") 41667 500 := by
  have hfound : found (camera "Gain") cameraWorld.device "Gain" = some (byteControl "Gain") := by decide +kernel
  intro h
  obtain ⟨u, v, hu, hv, huv⟩ := h.mono 41666 501 (by decide) (by decide) (by decide) (by decide) (by decide)
  have hu' : some 255 = some u := ((sends_iff hfound).1 hu).symm ▸ by decide +kernel
  have hv' : some 0 = some v := ((sends_iff hfound).1 hv).symm ▸ by decide +kernel
  rw [← Option.some.inj hu', ← Option.some.inj hv'] at huv
  exact absurd huv (by decide)

end Camview.CecControls
