/-
`buffer_t`, the three-slot array of buffer numbers `display.c` keeps its two
queues in, with `forward` and `put`.

The array stands for a queue only when it is packed: its numbers first, then
zeros. On packed arrays `forward` drops the head (`queue_eq_token_append`) and
`put` appends unless all three slots are taken (`put_queue`). The number 0
means "no buffer": putting it changes nothing (`put_zero`), and a full array
silently drops what is put.
-/
import Mathlib.Data.List.Count

namespace Camview

/-- `buffer_t`: `uint8_t[3]`. -/
structure BufferT where
  s0 : UInt8
  s1 : UInt8
  s2 : UInt8
deriving DecidableEq, Repr

/-- `forward`. -/
def forward (arr : BufferT) : BufferT := ⟨arr.s1, arr.s2, 0⟩

/-- `put`: the first free slot takes `data`, and none does when no slot is free. -/
def put (arr : BufferT) (data : UInt8) : BufferT :=
  if arr.s0 = 0 then { arr with s0 := data }
  else if arr.s1 = 0 then { arr with s1 := data }
  else if arr.s2 = 0 then { arr with s2 := data }
  else arr

namespace BufferT

/-- A non-zero prefix followed by zeros. -/
def Packed (arr : BufferT) : Prop :=
  (arr.s0 = 0 → arr.s1 = 0) ∧ (arr.s1 = 0 → arr.s2 = 0)

instance (arr : BufferT) : Decidable arr.Packed := inferInstanceAs (Decidable (_ ∧ _))

/-- No slot is free. -/
def Full (arr : BufferT) : Prop := arr.s0 ≠ 0 ∧ arr.s1 ≠ 0 ∧ arr.s2 ≠ 0

instance (arr : BufferT) : Decidable arr.Full := inferInstanceAs (Decidable (_ ∧ _ ∧ _))

/-- A buffer number as a list, with 0 for none. -/
def token (b : UInt8) : List UInt8 := if b = 0 then [] else [b]

@[simp] theorem token_zero : token 0 = [] := rfl

theorem token_of_ne {b : UInt8} (h : b ≠ 0) : token b = [b] := by simp [token, h]

theorem mem_token {a b : UInt8} : a ∈ token b ↔ a ≠ 0 ∧ a = b := by
  by_cases h : b = 0
  · subst h; simp
  · rw [token_of_ne h]; simp only [List.mem_singleton]
    exact ⟨fun e => ⟨e ▸ h, e⟩, fun e => e.2⟩

/-- The numbers in the array, in slot order. -/
def queue (arr : BufferT) : List UInt8 := [arr.s0, arr.s1, arr.s2].filter (· ≠ 0)

theorem zero_not_mem_queue (arr : BufferT) : 0 ∉ arr.queue := by simp [queue]

theorem mem_queue {arr : BufferT} {b : UInt8} :
    b ∈ arr.queue ↔ b ≠ 0 ∧ (b = arr.s0 ∨ b = arr.s1 ∨ b = arr.s2) := by
  simp [queue, and_comm]

theorem queue_eq_nil {arr : BufferT} (h : arr.Packed) : arr.queue = [] ↔ arr.s0 = 0 := by
  obtain ⟨h0, h1⟩ := h
  constructor
  · intro hq
    by_contra hs
    have : arr.s0 ∈ arr.queue := mem_queue.2 ⟨hs, .inl rfl⟩
    simp [hq] at this
  · intro hs
    simp [queue, hs, h0 hs, h1 (h0 hs)]

/-- The first slot is the head of the queue, and `forward` leaves the rest. -/
theorem queue_eq_token_append {arr : BufferT} (h : arr.Packed) :
    arr.queue = token arr.s0 ++ (forward arr).queue := by
  by_cases hs : arr.s0 = 0
  · have h1 := h.1 hs
    simp [queue, forward, hs, h1, h.2 h1]
  · simp [queue, forward, hs, token, List.filter_cons]

theorem full_iff_length (arr : BufferT) : arr.Full ↔ arr.queue.length = 3 := by
  unfold Full queue
  by_cases h0 : arr.s0 = 0 <;> by_cases h1 : arr.s1 = 0 <;> by_cases h2 : arr.s2 = 0 <;>
    simp [h0, h1, h2]

end BufferT

open BufferT

theorem forward_packed {arr : BufferT} (h : arr.Packed) : (forward arr).Packed :=
  ⟨h.2, fun _ => rfl⟩

theorem put_zero (arr : BufferT) : put arr 0 = arr := by
  unfold put
  split
  · next h => cases arr; simp_all
  split
  · next h => cases arr; simp_all
  split
  · next h => cases arr; simp_all
  rfl

theorem put_packed {arr : BufferT} (h : arr.Packed) (data : UInt8) : (put arr data).Packed := by
  obtain ⟨h0, h1⟩ := h
  unfold put
  split
  · next e => exact ⟨fun _ => h0 e, h1⟩
  split
  · next e0 e1 => exact ⟨fun e => absurd e e0, fun _ => h1 e1⟩
  split
  · next e0 e1 _ => exact ⟨fun e => absurd e e0, fun e => absurd e e1⟩
  · exact ⟨h0, h1⟩

/-- What is put where there is room becomes the last of the queue. -/
theorem put_queue {arr : BufferT} (h : arr.Packed) {data : UInt8} (hf : data ≠ 0 → ¬ arr.Full) :
    (put arr data).queue = arr.queue ++ token data := by
  by_cases hd : data = 0
  · subst hd; simp [put_zero]
  obtain ⟨h0, h1⟩ := h
  rw [token_of_ne hd]
  unfold put queue
  split
  · next e => simp [e, h0 e, h1 (h0 e), hd]
  split
  · next e0 e1 => simp [e0, e1, h1 e1, hd]
  split
  · next e0 e1 e2 => simp [e0, e1, e2, hd]
  · next e0 e1 e2 => exact absurd ⟨e0, e1, e2⟩ (hf hd)

/-- Putting a number leaves the array non-empty. -/
theorem put_s0_ne_zero {arr : BufferT} {data : UInt8} (hd : data ≠ 0) : (put arr data).s0 ≠ 0 := by
  unfold put
  split
  · exact hd
  split
  · assumption
  split <;> assumption

end Camview
