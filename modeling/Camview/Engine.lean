/-
The video engine as the decoder sees it: registers that keep what was written last,
the coefficients and the memory behind the table registers, and the job it reads from
them when it is started.

`own_jobs`: over a session the engine is started with what the frame at hand has
programmed and with nothing left of the frames before, exactly if the frames have
sampling factors that `set_format` knows; `get_format` is asked only before the display
is initialised.
-/
import Camview.HuffmanTables
import Camview.TableSelection

namespace Camview.Hw

open Reader

/-! ## The engine -/

/-- What the engine keeps: words and bytes by register, the coefficients by index, and
the table memory, which is written from a pointer on. -/
structure Engine where
  word : Nat → UInt32
  byte : Nat → UInt8
  coeff : Nat → UInt8
  ram : Nat → UInt32
  ramPtr : Nat

/-- A coefficient comes with its index, a word of the tables goes where the pointer is. -/
def Engine.access (e : Engine) : Access → Engine
  | .writel value reg =>
    if reg = veMpegIqMinInput then { e with coeff := Function.update e.coeff (value >>> 8).toNat value.toUInt8 }
    else if reg = veMpegRamWriteData then
      { e with ram := Function.update e.ram e.ramPtr value, ramPtr := e.ramPtr + 1 }
    else if reg = veMpegRamWritePtr then { e with ramPtr := value.toNat }
    else { e with word := Function.update e.word reg value }
  | .writeb value reg => { e with byte := Function.update e.byte reg value }
  | .wait => e

def Engine.run (e : Engine) (accesses : List Access) : Engine := accesses.foldl Engine.access e

/-- What the engine goes by when it is started. -/
structure Job where
  outputFormat : UInt32
  chromaOffset : UInt32
  outputSize : UInt32
  strides : UInt32
  restartInterval : UInt32
  format : UInt8
  luma : UInt32
  chroma : UInt32
  size : UInt32
  sdrotCtrl : UInt32
  vldEnd : UInt32
  ctrl : UInt32
  vldOffset : UInt32
  vldLen : UInt32
  vldAddr : UInt32
  coeffs : List UInt8
  tables : List UInt32
deriving DecidableEq, Repr

def Engine.job (e : Engine) : Job where
  outputFormat := e.word veOutputFormat
  chromaOffset := e.word 0xe8
  outputSize := e.word 0xc4
  strides := e.word 0xc8
  restartInterval := e.word veMpegJpegResInt
  format := e.byte (veMpegTrigger + 0x3)
  luma := e.word veMpegRotLuma
  chroma := e.word veMpegRotChroma
  size := e.word veMpegJpegSize
  sdrotCtrl := e.word veMpegSdrotCtrl
  vldEnd := e.word veMpegVldEnd
  ctrl := e.word veMpegCtrl
  vldOffset := e.word veMpegVldOffset
  vldLen := e.word veMpegVldLen
  vldAddr := e.word veMpegVldAddr
  coeffs := (List.range 128).map e.coeff
  tables := (List.range 512).map e.ram

/-- The jobs the engine is started with. -/
def Engine.jobs (e : Engine) : List Access → List Job
  | [] => []
  | a :: as => if a = start then e.job :: (e.access a).jobs as else (e.access a).jobs as

/-! ## What a decode programs -/

/-- The byte `set_format` writes, if it writes one. -/
def formatByte (jpeg : JpegT) (old : UInt8) : UInt8 :=
  if fmt jpeg = 0x11 then 0x1b
  else if fmt jpeg = 0x21 then 0x13
  else if fmt jpeg = 0x12 then 0x23
  else if fmt jpeg = 0x22 then 0x03
  else old

/-- The job of a frame, with the coefficients at `q0` and `q1`; `old` is the format
there was. -/
def jobOf (mem : Nat → UInt8) (out : Output) (phyInput : UInt32) (jpeg : JpegT) (q0 q1 : Nat) (old : UInt8) : Job where
  outputFormat := (0x3 : UInt32) <<< 4 ||| 0x3
  chromaOffset := out.vOffset.toUInt32 ||| (0x2 : UInt32) <<< 30
  outputSize := lineStride jpeg.width * ((jpeg.height.toUInt32 + 31) &&& ~~~31)
  strides := lineStride jpeg.width ||| lineStride jpeg.width <<< 16
  restartInterval := jpeg.restartInterval.toUInt32
  format := formatByte jpeg old
  luma := out.luma
  chroma := out.chromaU
  size := (sizeUnits jpeg.height (jpeg.comp 0).sampV).toUInt32 <<< 16 |||
    (sizeUnits jpeg.width (jpeg.comp 0).sampH).toUInt32
  sdrotCtrl := 0
  vldEnd := phyInput + ((jpeg.dataLen + 65535) &&& ~~~65535) - 1
  ctrl := 0x7c
  vldOffset := 0 * 8
  vldLen := jpeg.dataLen * 8
  vldAddr := phyInput ||| 0x70000000
  coeffs := (List.range 128).map fun i => if i < 64 then mem (q1 + i) else mem (q0 + (i - 64))
  tables := (List.range 512).map (wordAt (bufferByte (allWrites mem jpeg)))

/-- What `hw_decode_jpeg` does before it starts the engine. -/
def setup (out : Output) (phyInput : UInt32) (jpeg : JpegT) (size : List Access) : List Access :=
  [.writel ((0x3 : UInt32) <<< 4 ||| 0x3) veOutputFormat,
    .writel (out.vOffset.toUInt32 ||| (0x2 : UInt32) <<< 30) 0xe8,
    .writel (lineStride jpeg.width * ((jpeg.height.toUInt32 + 31) &&& ~~~31)) 0xc4,
    .writel (lineStride jpeg.width ||| lineStride jpeg.width <<< 16) 0xc8,
    .writel jpeg.restartInterval.toUInt32 veMpegJpegResInt] ++
  setFormat jpeg ++
  [.writel out.luma veMpegRotLuma, .writel out.chromaU veMpegRotChroma] ++
  size ++
  [.writel 0 veMpegSdrotCtrl,
    .writel (phyInput + ((jpeg.dataLen + 65535) &&& ~~~65535) - 1) veMpegVldEnd,
    .writel 0x7c veMpegCtrl,
    .writel (0 * 8) veMpegVldOffset,
    .writel (jpeg.dataLen * 8) veMpegVldLen,
    .writel (phyInput ||| 0x70000000) veMpegVldAddr]

/-- The words of the Huffman tables. -/
def tableAccesses (mem : Nat → UInt8) (jpeg : JpegT) : List Access :=
  (List.range 512).map fun k => .writel (wordAt (bufferByte (allWrites mem jpeg)) k) veMpegRamWriteData

variable {mem : Nat → UInt8} {out : Output} {phyInput : UInt32} {jpeg : JpegT} {e e' : Engine}

/-- The accesses of a decode: none, or the whole set-up and a start. -/
theorem hwDecodeJpeg_cases {accesses : List Access} (h : (hwDecodeJpeg out phyInput jpeg).run mem = some accesses) :
    accesses = [] ∨ ∃ size q0 q1, setSize jpeg = some size ∧ jpeg.quant 0 = some q0 ∧ jpeg.quant 1 = some q1 ∧
      accesses = setup out phyInput jpeg size ++ (coeffAccesses mem 64 q0 ++ coeffAccesses mem 0 q1) ++
        [.writel 0 veMpegRamWritePtr] ++ tableAccesses mem jpeg ++ [start, .wait, .writel 0xc00f veMpegStatus] := by
  unfold hwDecodeJpeg at h
  split at h
  · exact .inl (Option.some.inj h).symm
  dsimp only at h
  cases hsize : setSize jpeg with
  | none =>
    rw [hsize] at h
    cases h
  | some size =>
    rw [hsize] at h
    dsimp only at h
    rw [run_bind] at h
    cases hquant : (setQuantizationTables jpeg).run mem with
    | none =>
      rw [hquant] at h
      cases h
    | some quant =>
      rw [hquant] at h
      dsimp only at h
      rw [run_bind, run_pure, Option.some.injEq, setHuffmanTables_run] at h
      obtain ⟨q0, q1, h0, h1, rfl⟩ := setQuantizationTables_eq_some.1 hquant
      exact .inr ⟨size, q0, q1, rfl, h0, h1, h.symm⟩

/-! ## Runs of the engine -/

theorem Engine.run_append (as bs : List Access) : e.run (as ++ bs) = (e.run as).run bs := List.foldl_append

theorem Engine.jobs_append (as bs : List Access) : e.jobs (as ++ bs) = e.jobs as ++ (e.run as).jobs bs := by
  induction as generalizing e with
  | nil => rfl
  | cons a as ih =>
    rw [List.cons_append, jobs, jobs, ih]
    split
    · rfl
    · rfl

/-- How often the engine is started does not depend on what it keeps. -/
theorem Engine.length_jobs (e e' : Engine) (as : List Access) : (e.jobs as).length = (e'.jobs as).length := by
  induction as generalizing e e' with
  | nil => rfl
  | cons a as ih =>
    rw [jobs, jobs]
    split
    · rw [List.length_cons, List.length_cons, ih]
    · exact ih _ _

theorem Engine.jobs_eq_nil {as : List Access} (h : start ∉ as) : e.jobs as = [] := by
  induction as generalizing e with
  | nil => rfl
  | cons a as ih =>
    rw [List.mem_cons, not_or] at h
    rw [jobs, if_neg (Ne.symm h.1), ih h.2]

theorem Engine.access_coeff (value : UInt32) : e.access (.writel value veMpegIqMinInput) =
    { e with coeff := Function.update e.coeff (value >>> 8).toNat value.toUInt8 } := rfl

theorem Engine.access_table (value : UInt32) : e.access (.writel value veMpegRamWriteData) =
    { e with ram := Function.update e.ram e.ramPtr value, ramPtr := e.ramPtr + 1 } := rfl

theorem Engine.run_concat (as : List Access) (a : Access) : e.run (as ++ [a]) = (e.run as).access a :=
  run_append as [a]

/-- The index a coefficient comes with. -/
theorem coeff_index {i : Nat} (hi : i < 128) (c : UInt8) :
    ((UInt32.ofNat i <<< 8 ||| c.toUInt32) >>> 8).toNat = i := by
  have hc := c.toNat_lt
  rw [UInt32.toNat_shiftRight, UInt32.toNat_or, UInt32.toNat_shiftLeft, UInt32.toNat_ofNat', UInt8.toNat_toUInt32,
    Nat.mod_eq_of_lt (show i < 2 ^ 32 by omega)]
  show (i <<< 8 % 2 ^ 32 ||| c.toNat) >>> 8 = i
  rw [Nat.mod_eq_of_lt (by omega), ← Nat.shiftLeft_add_eq_or_of_lt (by omega), Nat.shiftRight_eq_div_pow]
  omega

/-- A table that is extended by one entry. -/
theorem update_window {β : Type} (f g : Nat → β) (base n : Nat) :
    Function.update (fun i => if base ≤ i ∧ i < base + n then f (i - base) else g i) (base + n) (f n) =
      fun i => if base ≤ i ∧ i < base + (n + 1) then f (i - base) else g i := by
  funext i
  by_cases hi : i = base + n
  · subst hi
    rw [Function.update_self, if_pos (by omega), Nat.add_sub_cancel_left]
  · rw [Function.update_of_ne hi]
    exact if_congr (by omega) rfl rfl

/-- One without entries. -/
theorem empty_window {β : Type} (f g : Nat → β) (base : Nat) :
    (fun i => if base ≤ i ∧ i < base + 0 then f (i - base) else g i) = g := by
  funext i
  exact if_neg (by omega)

/-- The coefficients numbered from `base` on. -/
theorem Engine.run_coeffs {base n : Nat} (hn : base + n ≤ 128) (coeff : Nat → UInt8) :
    e.run ((List.range n).map fun i => .writel (UInt32.ofNat (base + i) <<< 8 ||| (coeff i).toUInt32) veMpegIqMinInput) =
      { e with coeff := fun i => if base ≤ i ∧ i < base + n then coeff (i - base) else e.coeff i } := by
  induction n with
  | zero =>
    rw [empty_window]
    rfl
  | succ n ih =>
    rw [List.range_succ, List.map_append, List.map_singleton, run_concat, ih (by omega), access_coeff,
      coeff_index (by omega), low_byte, update_window]

/-- The tables, from where the pointer is. -/
theorem Engine.run_tables (word : Nat → UInt32) (n : Nat) :
    e.run ((List.range n).map fun k => .writel (word k) veMpegRamWriteData) =
      { e with
        ram := fun i => if e.ramPtr ≤ i ∧ i < e.ramPtr + n then word (i - e.ramPtr) else e.ram i
        ramPtr := e.ramPtr + n } := by
  induction n with
  | zero =>
    rw [empty_window]
    rfl
  | succ n ih =>
    rw [List.range_succ, List.map_append, List.map_singleton, run_concat, ih, access_table, update_window]
    rfl

theorem Engine.run_setFormat (e : Engine) : e.run (setFormat jpeg) = { e with
    byte := Function.update e.byte (veMpegTrigger + 0x3) (formatByte jpeg (e.byte (veMpegTrigger + 0x3))) } := by
  unfold setFormat formatByte
  repeat' split
  all_goals first | rfl | rw [Function.update_eq_self]; rfl

theorem setSize_eq_some {size : List Access} (h : setSize jpeg = some size) :
    size = [.writel ((sizeUnits jpeg.height (jpeg.comp 0).sampV).toUInt32 <<< 16 |||
      (sizeUnits jpeg.width (jpeg.comp 0).sampH).toUInt32) veMpegJpegSize] := by
  unfold setSize at h
  split at h
  · cases h
  · exact (Option.some.inj h).symm

/-- What the set-up leaves in the registers it writes. -/
theorem job_setup {size : List Access} (hsize : setSize jpeg = some size) (q0 q1 : Nat) :
    (e.run (setup out phyInput jpeg size ++ (coeffAccesses mem 64 q0 ++ coeffAccesses mem 0 q1) ++
      [.writel 0 veMpegRamWritePtr] ++ tableAccesses mem jpeg)).job =
      jobOf mem out phyInput jpeg q0 q1 (e.byte (veMpegTrigger + 0x3)) := by
  obtain rfl := setSize_eq_some hsize
  have hcoeffs : ∀ i ∈ List.range 128,
      (if 0 ≤ i ∧ i < 0 + 64 then mem (q1 + (i - 0)) else
        if 64 ≤ i ∧ i < 64 + 64 then mem (q0 + (i - 64)) else e.coeff i) =
      if i < 64 then mem (q1 + i) else mem (q0 + (i - 64)) := by
    intro i hi
    have hi' := List.mem_range.1 hi
    by_cases h64 : i < 64
    · rw [if_pos (by omega), if_pos h64, Nat.sub_zero]
    · rw [if_neg (by omega), if_pos (by omega), if_neg h64]
  have htables : ∀ i ∈ List.range 512,
      (if 0 ≤ i ∧ i < 0 + 512 then wordAt (bufferByte (allWrites mem jpeg)) (i - 0) else e.ram i) =
        wordAt (bufferByte (allWrites mem jpeg)) i := by
    intro i hi
    rw [if_pos (by have := List.mem_range.1 hi; omega), Nat.sub_zero]
  simp only [setup, Engine.run_append, Engine.run_setFormat]
  unfold coeffAccesses tableAccesses
  rw [Engine.run_tables, Engine.run_coeffs (by decide) fun i => mem (q1 + i),
    Engine.run_coeffs (by decide) fun i => mem (q0 + i)]
  unfold Engine.job jobOf
  rw [← List.map_congr_left hcoeffs, ← List.map_congr_left htables]
  rfl

/-- The engine is not started before all is set up. -/
theorem start_notMem_setup {size : List Access} (hsize : setSize jpeg = some size) (q0 q1 : Nat) :
    start ∉ setup out phyInput jpeg size ++ (coeffAccesses mem 64 q0 ++ coeffAccesses mem 0 q1) ++
      [.writel 0 veMpegRamWritePtr] ++ tableAccesses mem jpeg := by
  obtain rfl := setSize_eq_some hsize
  have hformat : .writeb 0x0e veMpegTrigger ∉ setFormat jpeg := by
    unfold setFormat
    repeat' split
    all_goals simp
  simp [setup, hformat, start, coeffAccesses, tableAccesses]

/-- A decode starts the engine once, with the job of its frame, or not at all. -/
theorem jobs_decode {accesses : List Access} (h : (hwDecodeJpeg out phyInput jpeg).run mem = some accesses) :
    start ∉ accesses ∨ ∃ q0 q1, jpeg.quant 0 = some q0 ∧ jpeg.quant 1 = some q1 ∧ ∀ e : Engine,
      e.jobs accesses = [jobOf mem out phyInput jpeg q0 q1 (e.byte (veMpegTrigger + 0x3))] := by
  rcases hwDecodeJpeg_cases h with rfl | ⟨size, q0, q1, hsize, h0, h1, rfl⟩
  · exact .inl List.not_mem_nil
  · refine .inr ⟨q0, q1, h0, h1, fun e => ?_⟩
    rw [Engine.jobs_append, Engine.jobs_eq_nil (start_notMem_setup hsize q0 q1), List.nil_append, Engine.jobs, if_pos rfl,
      job_setup hsize]
    rfl

/-! ## Sessions -/

/-- Every job of the session is that of a decode alone: whatever the engine kept at the
start of the session, and whatever it would keep at the start of the decode. -/
def OwnJobs (decoded : List (JpegT × List Access)) : Prop :=
  ∀ e e' : Engine, e.jobs (decoded.flatMap Prod.snd) = decoded.flatMap fun d => e'.jobs d.2

/-- A frame delivered after the display was initialised, if it is a JPEG the engine can
be started on and the buffer it gets has usable addresses, has sampling factors that
`set_format` knows. -/
def FormatKnown (s : State) (f : Frame) : Prop :=
  s.displayInitialized = true → ∀ jpeg, f.parse = some jpeg → Startable jpeg →
    (s.select f.bufferNumber).Usable → getFormat jpeg ≠ 0

theorem getFormat_eq_zero : getFormat jpeg = 0 ↔ fmt jpeg ∉ [0x11, 0x21, 0x12, 0x22] := by
  unfold getFormat
  split
  · next h => exact iff_of_false (fun e => absurd (e ▸ h) (by decide)) (not_not.2 h)
  · next h => exact iff_of_true rfl h

/-- The format is set exactly if it is one of the four. -/
theorem formatByte_eq_iff : (∀ old old' : UInt8, formatByte jpeg old = formatByte jpeg old') ↔ getFormat jpeg ≠ 0 := by
  rw [Ne, getFormat_eq_zero, not_not]
  unfold formatByte
  constructor
  · intro h
    by_contra hn
    simp only [List.mem_cons, List.not_mem_nil, or_false, not_or] at hn
    obtain ⟨h11, h21, h12, h22⟩ := hn
    have h01 := h 0 1
    rw [if_neg h11, if_neg h21, if_neg h12, if_neg h22] at h01
    simp [h11, h21, h12, h22] at h01
  · intro h old old'
    simp only [List.mem_cons, List.not_mem_nil, or_false] at h
    rcases h with h | h | h | h <;> simp [h]

theorem jobOf_inj {q0 q1 : Nat} {old old' : UInt8} :
    jobOf mem out phyInput jpeg q0 q1 old = jobOf mem out phyInput jpeg q0 q1 old' ↔
      formatByte jpeg old = formatByte jpeg old' := by
  unfold jobOf
  simp only [Job.mk.injEq, true_and, and_true]

/-- The jobs of a decode are its own if the frame's format is known. -/
theorem jobs_own_iff {accesses : List Access} (h : (hwDecodeJpeg out phyInput jpeg).run mem = some accesses) :
    (∀ e e' : Engine, e.jobs accesses = e'.jobs accesses) ↔ (start ∈ accesses → getFormat jpeg ≠ 0) := by
  rcases jobs_decode h with hn | ⟨q0, q1, -, -, hjobs⟩
  · refine iff_of_true (fun e e' => ?_) fun hs => absurd hs hn
    rw [Engine.jobs_eq_nil hn, Engine.jobs_eq_nil hn]
  · have hs : start ∈ accesses := by
      by_contra hn
      have hnil := hjobs ⟨fun _ => 0, fun _ => 0, fun _ => 0, fun _ => 0, 0⟩
      rw [Engine.jobs_eq_nil hn] at hnil
      cases hnil
    simp only [hjobs, List.cons.injEq, and_true, jobOf_inj, hs, true_implies]
    rw [← formatByte_eq_iff]
    constructor
    · intro hall old old'
      exact hall ⟨fun _ => 0, fun _ => old, fun _ => 0, fun _ => 0, 0⟩ ⟨fun _ => 0, fun _ => old', fun _ => 0, fun _ => 0, 0⟩
    · intro hall e e'
      exact hall _ _

theorem length_jobs_flatMap (e e' : Engine) (decoded : List (JpegT × List Access)) :
    (e.jobs (decoded.flatMap Prod.snd)).length = (decoded.flatMap fun d => e'.jobs d.2).length := by
  induction decoded generalizing e with
  | nil => rfl
  | cons d decoded ih =>
    rw [List.flatMap_cons, List.flatMap_cons, Engine.jobs_append, List.length_append, List.length_append, ih,
      Engine.length_jobs e e']

/-- One more decode. -/
theorem ownJobs_concat {decoded : List (JpegT × List Access)} {accesses : List Access}
    (h : (hwDecodeJpeg out phyInput jpeg).run mem = some accesses) :
    OwnJobs (decoded ++ [(jpeg, accesses)]) ↔ OwnJobs decoded ∧ (start ∈ accesses → getFormat jpeg ≠ 0) := by
  rw [← jobs_own_iff h]
  unfold OwnJobs
  simp only [List.flatMap_append, List.flatMap_cons, List.flatMap_nil, List.append_nil, Engine.jobs_append]
  constructor
  · intro hall
    refine ⟨fun e e' => ?_, fun e e' => ?_⟩
    · exact (List.append_inj (hall e e') (length_jobs_flatMap e e' decoded)).1
    · have hlen (e : Engine) := length_jobs_flatMap (e.run (decoded.flatMap Prod.snd)) e decoded
      have h1 := (List.append_inj (hall e e) (length_jobs_flatMap e e decoded)).2
      have h2 := (List.append_inj (hall e e') (length_jobs_flatMap e e' decoded)).2
      exact h1.symm.trans h2
  · intro ⟨hold, hnew⟩ e e'
    rw [hold e e', hnew _ e']

section Session

variable {s s' : State} {f : Frame}

theorem ownJobs_decodeInto :
    OwnJobs (decodeInto f jpeg s).decoded ↔
      OwnJobs s.decoded ∧ (Startable jpeg → (s.select f.bufferNumber).Usable → getFormat jpeg ≠ 0) := by
  have hstart := start_mem_iff f.data jpeg (s.select f.bufferNumber) f.phyInput
  cases hr : (hwDecodeJpeg (s.select f.bufferNumber) f.phyInput jpeg).run f.data with
  | none =>
    rw [decodeInto_none hr]
    refine (and_iff_left fun hj hu => ?_).symm
    obtain ⟨accesses, h, -⟩ := hstart.2 ⟨hu, hj⟩
    rw [hr] at h
    cases h
  | some accesses =>
    have hmem : start ∈ accesses ↔ (s.select f.bufferNumber).Usable ∧ Startable jpeg := by
      rw [← hstart, hr]
      simp
    rw [decodeInto_some hr, ownJobs_concat hr, hmem]
    refine and_congr_right fun _ => ?_
    exact ⟨fun h hj hu => h ⟨hu, hj⟩, fun h hu => h hu.2 hu.1⟩

theorem ownJobs_main : OwnJobs (hwDecodeJpegMain f s).decoded ↔ OwnJobs s.decoded ∧ FormatKnown s f := by
  unfold hwDecodeJpegMain FormatKnown
  cases f.parse with
  | none => simp
  | some jpeg =>
    dsimp only
    cases hi : s.displayInitialized with
    | true =>
      rw [if_pos rfl, ownJobs_decodeInto]
      simp
    | false =>
      rw [if_neg Bool.noConfusion]
      refine Iff.trans ?_ (and_iff_left fun h => absurd h Bool.noConfusion).symm
      split
      · rfl
      next hformat =>
      split
      · rfl
      · -- The first frame has a format that is known.
        exact ownJobs_decodeInto.trans (and_iff_left fun _ _ => hformat)

/-- **Jobs of their own.** In every session, each job the engine is started with is the
one its frame programs, whatever was decoded before and whatever the engine kept from
earlier sessions, exactly if every frame that reaches the engine after the display was
initialised has sampling factors `set_format` knows. -/
theorem own_jobs (s : State) : machine.Via FormatKnown s ↔ machine.Reach s ∧ OwnJobs s.decoded := by
  refine Machine.via_iff (P := fun s : State => OwnJobs s.decoded) (fun s hi e e' => ?_) fun s f s' _ hs => ?_
  · rw [hi.2.2.2]
    rfl
  · simp only [machine, Option.ite_none_left_eq_some, Option.some.injEq] at hs
    rw [← hs.2]
    exact ownJobs_main

end Session

end Camview.Hw
