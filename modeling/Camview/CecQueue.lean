/-
The message queue between `rx_loop` and `poll_cec_events`. At any time the
messages received are those processed, the one in the control thread's hand,
those in the queue and the one `rx_loop` is adding, in this order (`Inv`), each
node in one of these places.

`cec_messages`: the calls of `apply_value` are therefore a prefix of what the
messages received ask for (`image`), a statement about the messages alone.
-/
import Camview.Cec
import Mathlib.Data.List.Infix

namespace Camview.Cec

open LinkedQueue

/-! ## What the messages ask for -/

/-- The codes whose value is sent in two bytes. -/
def Data2.code : Data2 → UInt8
  | .contrast => cecDevContrastCode
  | .saturation => cecDevSaturationCode
  | .pivot => cecDevPivotCode
  | .luma => cecDevLuminosityCode
  | .shutter => cecDevShutterSpeedCode

/-- The controls they are meant for. -/
def Data2.control : Data2 → String
  | .contrast => "Contrast"
  | .saturation => "Saturation"
  | .pivot => "Bright"
  | .luma => "Gamma"
  | .shutter => "Gain"

/-- The high byte after the messages `ms`: of the latest one with the code that
has it, else the one stored before. -/
def highByte (d : Data2 → UInt8) (ms : List CecMsg) (k : Data2) : UInt8 :=
  ((ms.filter fun m => m.msg 1 = k.code ∧ 4 ≤ m.len).getLast?.map (·.msg 3)).getD (d k)

/-- The control and the value a message asks for, after the messages `ms`. -/
def meaning (d : Data2 → UInt8) (ms : List CecMsg) (m : CecMsg) : Option (String × Int) :=
  match [Data2.contrast, .saturation, .pivot, .luma, .shutter].find? (·.code = m.msg 1) with
  | some k => some (k.control, 256 * (highByte d (ms ++ [m]) k).toNat + (m.msg 2).toNat)
  | none => if m.msg 1 = cecDevWhiteBalanceTemp then some ("White Balance Temperature", 50 * (m.msg 2).toNat) else none

/-- What the messages ask for one after the other, after the messages `ms`. -/
def image (d : Data2 → UInt8) (ms : List CecMsg) : List CecMsg → List (String × Int)
  | [] => []
  | m :: rest => (meaning d ms m).toList ++ image d (ms ++ [m]) rest

theorem image_append (d : Data2 → UInt8) (ms l l' : List CecMsg) :
    image d ms (l ++ l') = image d ms l ++ image d (ms ++ l) l' := by
  induction l generalizing ms with
  | nil => simp [image]
  | cons m l ih => simp [image, ih]

/-- A message changes the high byte of its own code, if it has one. -/
theorem highByte_concat (d : Data2 → UInt8) (ms : List CecMsg) (m : CecMsg) (k : Data2) :
    highByte d (ms ++ [m]) k = if m.msg 1 = k.code ∧ 4 ≤ m.len then m.msg 3 else highByte d ms k := by
  unfold highByte
  rw [List.filter_append, List.filter_cons, List.filter_nil]
  split
  · next h =>
    rw [if_pos (of_decide_eq_true h), List.getLast?_concat]
    rfl
  · next h => rw [if_neg (of_decide_eq_false (by simpa using h)), List.append_nil]

/-! ## Processing -/

theorem Data2.code_inj {k k' : Data2} (h : k.code = k'.code) : k = k' := by
  revert h
  cases k <;> cases k' <;> decide

/-- The high bytes after a message with a code of two bytes, as `process_*` store them. -/
theorem highByte_update {d : Data2 → UInt8} {ms : List CecMsg} {m : CecMsg} {k : Data2} (h : m.msg 1 = k.code) :
    (if (Message.ofMsg m).hasData2 ≠ 0 then Function.update (highByte d ms) k (Message.ofMsg m).data2
      else highByte d ms) = highByte d (ms ++ [m]) := by
  funext k'
  rw [highByte_concat, h]
  have hhas : (Message.ofMsg m).hasData2 ≠ 0 ↔ 4 ≤ m.len := by
    unfold Message.ofMsg
    by_cases hl : 4 ≤ m.len
    · simp [hl]
    · simp [hl]
  by_cases hl : 4 ≤ m.len
  · rw [if_pos (hhas.2 hl)]
    by_cases hk : k' = k
    · subst hk
      rw [Function.update_self, if_pos ⟨rfl, hl⟩]
      rfl
    · rw [Function.update_of_ne hk, if_neg fun e => hk (Data2.code_inj e.1).symm]
  · rw [if_neg (mt hhas.1 hl), if_neg fun e => hl e.2]

theorem word_eq (hi lo : UInt8) : ((hi.toNat <<< 8 ||| lo.toNat : Nat) : Int) = 256 * hi.toNat + lo.toNat := by
  have hlo := lo.toNat_lt
  rw [← Nat.shiftLeft_add_eq_or_of_lt (by omega), Nat.shiftLeft_eq]
  omega

theorem processData2_eq {d : Data2 → UInt8} {ms : List CecMsg} {m : CecMsg} {k : Data2} (h : m.msg 1 = k.code)
    (min max : Int) :
    processData2 k k.control min max (.ofMsg m) (highByte d ms) =
      (highByte d (ms ++ [m]),
        ⟨k.control, min, max, 256 * (highByte d (ms ++ [m]) k).toNat + (m.msg 2).toNat⟩) := by
  unfold processData2
  dsimp only
  rw [highByte_update h, word_eq]
  rfl

/-- A message with another code leaves the high bytes. -/
theorem highByte_other {d : Data2 → UInt8} {ms : List CecMsg} {m : CecMsg} (h : ∀ k : Data2, m.msg 1 ≠ k.code) :
    highByte d (ms ++ [m]) = highByte d ms := by
  funext k
  rw [highByte_concat, if_neg fun e => h k e.1]

/-- The switch does what the message asks for. -/
theorem process_eq (d : Data2 → UInt8) (ms : List CecMsg) (m : CecMsg) :
    (process (.ofMsg m) (highByte d ms)).1 = highByte d (ms ++ [m]) ∧
      (process (.ofMsg m) (highByte d ms)).2.map (fun c => (c.name, c.val)) = meaning d ms m := by
  have hcode : (Message.ofMsg m).code = m.msg 1 := rfl
  by_cases hk : ∃ k : Data2, m.msg 1 = k.code
  · obtain ⟨k, hk⟩ := hk
    have hp : ∃ min max, process (.ofMsg m) (highByte d ms) =
        (processData2 k k.control min max (.ofMsg m) (highByte d ms)).map id some := by
      unfold process
      rw [hcode, hk]
      cases k
      · exact ⟨0, 4096, rfl⟩
      · exact ⟨0, 4096, rfl⟩
      · exact ⟨0, 2048, rfl⟩
      · exact ⟨0, 2048, rfl⟩
      · exact ⟨41667, 500, rfl⟩
    have hm : meaning d ms m =
        some (k.control, (256 * (highByte d (ms ++ [m]) k).toNat + (m.msg 2).toNat : Int)) := by
      unfold meaning
      rw [hk]
      cases k <;> rfl
    obtain ⟨min, max, hp⟩ := hp
    rw [hp, processData2_eq hk, hm]
    exact ⟨rfl, rfl⟩
  · have hne : ∀ k : Data2, m.msg 1 ≠ k.code := fun k e => hk ⟨k, e⟩
    have hnone : [Data2.contrast, .saturation, .pivot, .luma, .shutter].find? (·.code = m.msg 1) = none := by
      rw [List.find?_eq_none]
      intro k _
      simpa using (hne k).symm
    obtain ⟨hcon, hlum, hpiv, hsat, hshu⟩ : m.msg 1 ≠ cecDevContrastCode ∧ m.msg 1 ≠ cecDevLuminosityCode ∧
        m.msg 1 ≠ cecDevPivotCode ∧ m.msg 1 ≠ cecDevSaturationCode ∧ m.msg 1 ≠ cecDevShutterSpeedCode :=
      ⟨hne .contrast, hne .luma, hne .pivot, hne .saturation, hne .shutter⟩
    unfold process meaning
    rw [hnone, hcode, highByte_other hne, if_neg hcon, if_neg hlum, if_neg hpiv, if_neg hsat, if_neg hshu]
    by_cases hhue : m.msg 1 = cecDevHueCode
    · rw [hhue]
      exact ⟨rfl, rfl⟩
    by_cases htint : m.msg 1 = cecDevTintCode
    · rw [htint]
      exact ⟨rfl, rfl⟩
    rw [if_neg hhue, if_neg htint]
    dsimp only
    by_cases hwbt : m.msg 1 = cecDevWhiteBalanceTemp
    · have hval : ((m.msg 2).toNat - 50 : Int) * 50 + 2500 = 50 * (m.msg 2).toNat := by omega
      rw [if_pos hwbt, if_pos hwbt, ← hval]
      exact ⟨rfl, rfl⟩
    · rw [if_neg hwbt, if_neg hwbt]
      exact ⟨rfl, rfl⟩

/-! ## Where the messages are -/

/-- The nodes in the control thread's hand, and the messages among them still to
be processed. -/
inductive Holds (h : Heap Message) : ControlPc → List Nat → List CecMsg → Prop
  | outside : Holds h .outside [] []
  | polling : Holds h .polling [] []
  | processing : h a = some ⟨.ofMsg m, q⟩ → Holds h (.processing a) [a] [m]
  | freeing : h a = some cell → Holds h (.freeing a) [a] []

/-- The node `rx_loop` is adding. -/
inductive Adds (h : Heap Message) : RxPc → List Nat → List CecMsg → Prop
  | idle : Adds h .idle [] []
  | adding : h a = some ⟨.ofMsg m, none⟩ → Adds h (.adding a) [a] [m]

/-- Each message received is processed, in hand, queued or being added, in this
order; each node is in one place; what was applied is what the messages
processed ask for. -/
structure Places (d : Data2 → UInt8) (s : State) (done : List CecMsg) (as bs : List Nat) (cur pend : List CecMsg)
    (l : List (Nat × CecMsg)) : Prop where
  queue : IsQueue s.heap s.messageQueueStart s.messageQueueEnd (l.map (Prod.map id .ofMsg))
  control : Holds s.heap s.control as cur
  rx : Adds s.heap s.rx bs pend
  controlApart : ∀ a ∈ as, a ∉ bs ∧ a ∉ l.map Prod.fst
  rxApart : ∀ b ∈ bs, b ∉ l.map Prod.fst
  received : s.received = done ++ cur ++ l.map Prod.snd ++ pend
  data2 : s.data2 = highByte d done
  applied : s.applied.map (fun c => (c.name, c.val)) = image d [] done
  fault : s.fault = false

def Inv (d : Data2 → UInt8) (s : State) : Prop := ∃ done as bs cur pend l, Places d s done as bs cur pend l

section Frame

variable {h h' : Heap Message} {as bs : List Nat} {ms : List CecMsg}

theorem Holds.congr {pc : ControlPc} (hc : Holds h pc as ms) (heq : ∀ a ∈ as, h' a = h a) : Holds h' pc as ms := by
  cases hc with
  | outside => exact .outside
  | polling => exact .polling
  | processing ha => exact .processing ((heq _ (List.mem_singleton_self _)).trans ha)
  | freeing ha => exact .freeing ((heq _ (List.mem_singleton_self _)).trans ha)

theorem Adds.congr {pc : RxPc} (hr : Adds h pc bs ms) (heq : ∀ b ∈ bs, h' b = h b) : Adds h' pc bs ms := by
  cases hr with
  | idle => exact .idle
  | adding hb => exact .adding ((heq _ (List.mem_singleton_self _)).trans hb)

theorem Holds.allocated {pc : ControlPc} (hc : Holds h pc as ms) : ∀ a ∈ as, h a ≠ none := by
  cases hc with
  | outside | polling => exact fun _ ha => absurd ha List.not_mem_nil
  | processing ha | freeing ha =>
    intro b hb
    rw [List.mem_singleton.1 hb, ha]
    simp

end Frame

theorem map_fst_cells (l : List (Nat × CecMsg)) :
    (l.map (Prod.map id Message.ofMsg)).map Prod.fst = l.map Prod.fst := by
  rw [List.map_map]
  rfl

variable {d : Data2 → UInt8} {s s' : State} {done : List CecMsg} {as bs : List Nat} {cur pend : List CecMsg}
  {l : List (Nat × CecMsg)}

theorem Places.allocated (h : Places d s done as bs cur pend l) : ∀ a ∈ l.map Prod.fst, s.heap a ≠ none := by
  intro a ha
  rw [← map_fst_cells] at ha
  obtain ⟨c, hc, rfl⟩ := List.mem_map.1 ha
  obtain ⟨q, hq⟩ := h.queue.chain.mem hc
  rw [hq]
  simp

/-- A node `malloc` may answer is in none of the places. -/
theorem Places.newNode (h : Places d s done as bs cur pend l) (hidle : s.rx = .idle) {node : Nat}
    (hn : s.heap node = none) (msg : CecMsg) :
    Inv d (newNode msg node s) := by
  have hrx := h.rx
  rw [hidle] at hrx
  cases hrx
  have hne {a : Nat} (ha : s.heap a ≠ none) : a ≠ node := fun e => ha (e ▸ hn)
  have heq {a : Nat} (ha : s.heap a ≠ none) :
      Function.update s.heap node (some ⟨.ofMsg msg, none⟩) a = s.heap a := Function.update_of_ne (hne ha) ..
  refine ⟨done, as, [node], cur, [msg], l, ?_⟩
  exact
    { queue := h.queue.congr fun a ha => heq (h.allocated a (by rwa [map_fst_cells] at ha))
      control := h.control.congr fun a ha => heq (h.control.allocated a ha)
      rx := .adding (Function.update_self ..)
      controlApart := fun a ha => ⟨fun e => hne (h.control.allocated a ha) (List.mem_singleton.1 e),
        (h.controlApart a ha).2⟩
      rxApart := fun b hb hm => hne (h.allocated b hm) (List.mem_singleton.1 hb)
      received := by
        show s.received ++ [msg] = _
        rw [h.received, List.append_nil]
      data2 := h.data2
      applied := h.applied
      fault := h.fault }

/-- The section of `add_message_to_queue` moves its node to the end of the queue. -/
theorem Places.add (h : Places d s done as bs cur pend l) {node : Nat} (hrx : s.rx = .adding node) :
    Inv d (addMessageToQueue node s) := by
  have hr := h.rx
  rw [hrx] at hr
  cases hr with
  | @adding _ m hnode =>
  have hfresh : node ∉ (l.map (Prod.map id Message.ofMsg)).map Prod.fst := by
    rw [map_fst_cells]
    exact h.rxApart node (List.mem_singleton_self node)
  have hreceived : s.received = done ++ cur ++ (l ++ [(node, m)]).map Prod.snd ++ [] := by
    rw [h.received, List.map_append, List.append_nil, ← List.append_assoc]
    rfl
  have hcells : l.map (Prod.map id Message.ofMsg) ++ [(node, Message.ofMsg m)] =
      (l ++ [(node, m)]).map (Prod.map id Message.ofMsg) := by
    rw [List.map_append]
    rfl
  have hapart : ∀ a ∈ as, a ∉ ([] : List Nat) ∧ a ∉ (l ++ [(node, m)]).map Prod.fst := by
    intro a ha
    obtain ⟨hb, hl⟩ := h.controlApart a ha
    rw [List.map_append, List.mem_append, not_or]
    exact ⟨List.not_mem_nil, hl, hb⟩
  unfold addMessageToQueue
  split
  · next hend =>
    have hq := h.queue.enqueue_empty hend hnode
    rw [hcells] at hq
    exact ⟨done, as, [], cur, [], l ++ [(node, m)], hq, h.control, .idle, hapart,
      fun _ hb => absurd hb List.not_mem_nil, hreceived, h.data2, h.applied, h.fault⟩
  · next last hend =>
    have hqueue := h.queue
    rw [hend] at hqueue
    obtain ⟨x, q, hlast, hq⟩ := hqueue.enqueue hfresh hnode
    rw [hlast]
    rw [hcells] at hq
    -- The last node is in the queue, so it is not the one in hand.
    have hin : last ∈ l.map Prod.fst := by
      rw [← map_fst_cells]
      obtain ⟨c, hc, rfl⟩ := Option.map_eq_some_iff.1 hqueue.last.symm
      exact List.mem_map_of_mem (List.mem_of_getLast? hc)
    have hcontrol : Holds (Function.update s.heap last (some ⟨x, some node⟩)) s.control as cur :=
      h.control.congr fun a ha => Function.update_of_ne (fun e : a = last => (h.controlApart a ha).2 (e ▸ hin)) ..
    exact ⟨done, as, [], cur, [], l ++ [(node, m)], hq, hcontrol, .idle, hapart,
      fun _ hb => absurd hb List.not_mem_nil, hreceived, h.data2, h.applied, h.fault⟩

/-- The section of `poll_cec_events` moves the first node into the hand. -/
theorem Places.dequeue (h : Places d s done as bs cur pend l) (hc : s.control = .polling) :
    Inv d (Cec.dequeue s) := by
  have hcontrol := h.control
  rw [hc] at hcontrol
  cases hcontrol
  unfold Cec.dequeue
  split
  · exact ⟨done, [], bs, [], pend, l, h.queue, .outside, h.rx, h.controlApart, h.rxApart, h.received, h.data2,
      h.applied, h.fault⟩
  · next node hstart =>
    have hqueue := h.queue
    rw [hstart] at hqueue
    obtain ⟨x, q, rest, hl, hnode, hnotin, hrest⟩ := hqueue.dequeue
    cases l with
    | nil => cases hl
    | cons c l =>
      obtain ⟨a, m⟩ := c
      cases hl
      rw [map_fst_cells] at hnotin
      have hrx := h.rxApart
      rw [List.map_cons] at hrx
      rw [hnode]
      refine ⟨done, [a], bs, [m], pend, l, hrest, .processing hnode, h.rx, ?_, ?_, ?_, h.data2, h.applied, h.fault⟩
      · intro a' ha'
        rw [List.mem_singleton.1 ha']
        exact ⟨fun hb => hrx a hb List.mem_cons_self, hnotin⟩
      · exact fun b hb hm => hrx b hb (List.mem_cons_of_mem _ hm)
      · show s.received = _
        rw [h.received]
        simp

/-- The switch processes the message in hand. -/
theorem Places.process (h : Places d s done as bs cur pend l) {node : Nat} (hc : s.control = .processing node) :
    Inv d (processNode node s) := by
  have hcontrol := h.control
  rw [hc] at hcontrol
  cases hcontrol with
  | @processing _ m q hnode =>
  obtain ⟨hd, ha⟩ := process_eq d done m
  unfold processNode
  rw [hnode]
  dsimp only
  rw [h.data2]
  refine ⟨done ++ [m], [node], bs, [], pend, l, h.queue, .freeing hnode, h.rx, h.controlApart, h.rxApart, ?_, hd, ?_,
    h.fault⟩
  · show s.received = _
    rw [h.received]
    simp
  · show (s.applied ++ _).map _ = _
    have himage : image d ([] ++ done) [m] = (meaning d done m).toList := List.append_nil _
    rw [List.map_append, h.applied, image_append, himage, ← ha]
    cases (Cec.process (.ofMsg m) (highByte d done)).2 <;> rfl

/-- The node freed is nowhere else. -/
theorem Places.free (h : Places d s done as bs cur pend l) {node : Nat} (hc : s.control = .freeing node) :
    Inv d (freeNode node s) := by
  have hcontrol := h.control
  rw [hc] at hcontrol
  cases hcontrol with
  | @freeing _ cell hnode =>
  obtain ⟨hbs, hl⟩ := h.controlApart node (List.mem_singleton_self node)
  unfold freeNode
  rw [hnode]
  refine ⟨done, [], bs, [], pend, l, ?_, .polling, ?_, fun _ ha => absurd ha List.not_mem_nil, h.rxApart, h.received,
    h.data2, h.applied, h.fault⟩
  · refine h.queue.congr fun a ha => Function.update_of_ne (fun e => hl ?_) ..
    rwa [map_fst_cells, e] at ha
  · exact h.rx.congr fun b hb => Function.update_of_ne (fun e : b = node => hbs (e ▸ hb)) ..

theorem inv_init (hi : (machine d).init s) : Inv d s := by
  obtain ⟨h1, h2, h3, h4, h5, h6, h7, h8⟩ := hi
  refine ⟨[], [], [], [], [], [], ?_, ?_, ?_, ?_, ?_, ?_, ?_, ?_, h6⟩
  · rw [h1, h2]
    exact .empty _
  · rw [h5]
    exact .outside
  · rw [h4]
    exact .idle
  · exact fun _ ha => absurd ha List.not_mem_nil
  · exact fun _ hb => absurd hb List.not_mem_nil
  · exact h7
  · rw [h3]
    rfl
  · rw [h8]
    rfl

theorem Inv.step (h : Inv d s) {a : Act} (hs : step s a = some s') : Inv d s' := by
  obtain ⟨done, as, bs, cur, pend, l, h⟩ := h
  cases a with
  | receive msg node =>
    unfold Cec.step at hs
    dsimp only at hs
    split at hs
    · cases hs
    next hidle =>
    split at hs
    · cases hs
      exact ⟨done, as, bs, cur, pend, l, h⟩
    split at hs
    · cases hs
    · next hn =>
      cases hs
      exact h.newNode (not_not.1 hidle) (by simpa using hn) msg
  | add =>
    unfold Cec.step at hs
    dsimp only at hs
    split at hs
    · next hrx =>
      cases hs
      exact h.add hrx
    · cases hs
  | poll =>
    simp only [Cec.step, Option.ite_none_right_eq_some, Option.some.injEq] at hs
    obtain ⟨hc, rfl⟩ := hs
    have hcontrol := h.control
    rw [hc] at hcontrol
    cases hcontrol
    exact ⟨done, [], bs, [], pend, l, h.queue, .polling, h.rx, h.controlApart, h.rxApart, h.received, h.data2,
      h.applied, h.fault⟩
  | dequeue =>
    simp only [Cec.step, Option.ite_none_right_eq_some, Option.some.injEq] at hs
    obtain ⟨hc, rfl⟩ := hs
    exact h.dequeue hc
  | process =>
    unfold Cec.step at hs
    dsimp only at hs
    split at hs
    · next hc =>
      cases hs
      exact h.process hc
    · cases hs
  | free =>
    unfold Cec.step at hs
    dsimp only at hs
    split at hs
    · next hc =>
      cases hs
      exact h.free hc
    · cases hs

theorem reach_inv (h : (machine d).Reach s) : Inv d s :=
  h.invariant (I := Inv d) (fun _ hi => inv_init hi) fun _ _ _ _ hi hs => hi.step hs

/-! ## The session -/

/-- `node` can be reached from the pointer `p`. -/
inductive Reachable (h : Heap Message) : Option Nat → Nat → Prop
  | here : h node = some cell → Reachable h (some node) node
  | next : h node = some cell → Reachable h cell.next node' → Reachable h (some node) node'

theorem reachable_of_chain {h : Heap Message} {p : Option Nat} {l : List (Nat × Message)} (hc : Chain h p l)
    {c : Nat × Message} (hm : c ∈ l) : Reachable h p c.1 := by
  induction l generalizing p with
  | nil => cases hm
  | cons b l ih =>
    obtain ⟨hp, q, hb, hl⟩ := hc
    rw [hp]
    rcases List.mem_cons.1 hm with rfl | hm
    · exact .here hb
    · exact .next hb (ih hl hm)

/-- What holds of the queue at any time, for the high bytes `d` before the
session: the calls made so far are the first ones the messages ask for; both
pointers are `NULL` or neither is; the end is the last node reached from the
start; and no node was used after it was freed. -/
structure Exact (d : Data2 → UInt8) (s : State) : Prop where
  applied : s.applied.map (fun c => (c.name, c.val)) <+: image d [] s.received
  null : s.messageQueueStart = none ↔ s.messageQueueEnd = none
  last : ∀ node, s.messageQueueEnd = some node →
    Reachable s.heap s.messageQueueStart node ∧ ∃ cell, s.heap node = some cell ∧ cell.next = none
  fault : s.fault = false

/-- **Messages are processed once, in order, with their value.** In every run of
`rx_loop` and the control thread after an `init_cec_controls` that succeeded, on
any messages. -/
theorem cec_messages (d : Data2 → UInt8) {s : State} (h : (machine d).Reach s) : Exact d s := by
  obtain ⟨done, as, bs, cur, pend, l, h⟩ := reach_inv h
  refine ⟨?_, h.queue.first_eq_none.trans h.queue.last_eq_none.symm, fun node hend => ?_, h.fault⟩
  · rw [h.applied, h.received, List.append_assoc, List.append_assoc, image_append]
    exact List.prefix_append ..
  · have hqueue := h.queue
    rw [hend] at hqueue
    obtain ⟨c, hc, rfl⟩ := Option.map_eq_some_iff.1 hqueue.last.symm
    exact ⟨reachable_of_chain hqueue.chain (List.mem_of_getLast? hc), hqueue.last_next⟩

/-- A message of `bytes` from the TV. -/
def fromTv (len : UInt32) (code data1 data2 : UInt8) : CecMsg :=
  ⟨len, fun i => if i = 1 then code else if i = 2 then data1 else if i = 3 then data2 else 0⟩

/-- Two contrast messages, the second without a high byte. -/
theorem cec_messages_sample :
    ∃ s, (machine fun _ => 0).exec ⟨fun _ => none, none, none, fun _ => 0, .idle, .outside, false, [], []⟩
        [.receive (fromTv 4 0x20 0x10 0x03) 1, .add, .receive (fromTv 3 0x20 0x20 0) 2, .add, .poll, .dequeue,
          .process, .free, .dequeue, .process] = some s ∧
      s.applied = [⟨"Contrast", 0, 4096, 784⟩, ⟨"Contrast", 0, 4096, 800⟩] ∧ Exact (fun _ => 0) s := by
  obtain ⟨s, hs, ha⟩ : ∃ s, (machine fun _ => 0).exec
      ⟨fun _ => none, none, none, fun _ => 0, .idle, .outside, false, [], []⟩
      [.receive (fromTv 4 0x20 0x10 0x03) 1, .add, .receive (fromTv 3 0x20 0x20 0) 2, .add, .poll, .dequeue,
        .process, .free, .dequeue, .process] = some s ∧
      s.applied = [⟨"Contrast", 0, 4096, 784⟩, ⟨"Contrast", 0, 4096, 800⟩] := ⟨_, rfl, by decide⟩
  refine ⟨s, hs, ha, cec_messages (fun _ => 0) (Machine.Reach.exec (.start ?_) hs)⟩
  exact ⟨rfl, rfl, rfl, rfl, rfl, rfl, rfl, rfl⟩

end Camview.Cec
