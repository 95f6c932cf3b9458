/-
The memory of the video engine, as `ve.c` hands it out: the list of memory
chunks `ve_open` starts with one chunk, `ve_malloc` splits and `ve_free` joins
again. One lemma for each function says which chunk it picks and what becomes of
the list around it.

`int` is `Int32`, with its conversions; a virtual address is a number, 0 for
`NULL`. The kernel is a parameter: what `open`, the ioctl and `mmap` answer.
-/
import Camview.Transition
import Mathlib.Data.List.Chain

namespace Camview.Ve

/-- `PAGE_OFFSET`, from the kernel. -/
def pageOffset : UInt32 := 0xc0000000

/-- `PAGE_SIZE`. -/
def pageSize : Int32 := 4096

/-- What `IOCTL_GET_ENV_INFO` tells of the reserved memory. -/
structure VeInfo where
  reservedMem : UInt32
  reservedMemSize : Int32

/-- `struct memchunk_t`; its `next` is the rest of the list. -/
structure MemchunkT where
  physAddr : UInt32
  size : Int32
  virtAddr : Nat
deriving DecidableEq, Repr

/-- `ve`: its descriptor, and the list from `first_memchunk` on. -/
structure State where
  fd : Int32
  memchunks : List MemchunkT
deriving DecidableEq, Repr

/-- `ve` before the first `ve_open`. -/
def static : State := ⟨-1, [⟨0, 0, 0⟩]⟩

/-- What `mmap` answers to a size, `PROT_WRITE` and an offset; `none` is `MAP_FAILED`. -/
abbrev Mmap := Int32 → Bool → UInt32 → Option Nat

/-! ## ve_open -/

/-- `ve.first_memchunk.phys_addr` and `.size`, set from the region. -/
def setFirstMemchunk (info : VeInfo) : List MemchunkT → List MemchunkT
  | [] => []
  | c :: cs => { c with physAddr := info.reservedMem - pageOffset, size := info.reservedMemSize } :: cs

/-- `ve_open`: `fd` from `open`, `info` from the ioctl, `regs` from the `mmap` of
the registers; the last two are `none` on failure. -/
def veOpen (fd : Int32) (info : Option VeInfo) (regs : Option Nat) (ve : State) : Bool × State :=
  if ve.fd ≠ -1 then (false, ve)
  else if fd = -1 then (false, { ve with fd := fd })
  else
    match info, regs with
    | some info, some _ => (true, { ve with fd := fd, memchunks := setFirstMemchunk info ve.memchunks })
    | _, _ => (false, { ve with fd := -1 })

/-! ## ve_malloc -/

/-- `(size + PAGE_SIZE - 1) & ~(PAGE_SIZE - 1)`. -/
def roundUp (size : Int32) : Int32 := (size + pageSize - 1) &&& ~~~(pageSize - 1)

/-- `if (best_chunk == NULL || c->size < best_chunk->size) best_chunk = c`, a
chunk being known by its place in the list. -/
def better (i : Nat) (c : MemchunkT) : Option (Nat × MemchunkT) → Option (Nat × MemchunkT)
  | none => some (i, c)
  | some (j, b) => if c.size < b.size then some (i, c) else some (j, b)

/-- The search for `best_chunk` from the place `i` on, with the best found so far. -/
def bestChunk (size : Int32) : List MemchunkT → Nat → Option (Nat × MemchunkT) → Option (Nat × MemchunkT)
  | [], _, best => best
  | c :: cs, i, best =>
    if c.virtAddr = 0 ∧ size ≤ c.size then
      if c.size = size then better i c best else bestChunk size cs (i + 1) (better i c best)
    else bestChunk size cs (i + 1) best

/-- What takes the place of `best_chunk` once it is mapped at `addr`. -/
def split (size : Int32) (addr : Nat) (b : MemchunkT) : List MemchunkT :=
  let leftSize := b.size - size
  { b with virtAddr := addr, size := size } ::
    if 0 < leftSize then [⟨b.physAddr + size.toUInt32, leftSize, 0⟩] else []

/-- `ve_malloc`. -/
def veMalloc (mmap : Mmap) (size : Int32) (write : Bool) (ve : State) : Nat × State :=
  if ve.fd = -1 then (0, ve)
  else
    let size := roundUp size
    match bestChunk size ve.memchunks 0 none with
    | none => (0, ve)
    | some (i, b) =>
      match mmap size write (b.physAddr + pageOffset) with
      | none | some 0 => (0, ve)
      | some addr =>
        (addr, { ve with memchunks := ve.memchunks.take i ++ split size addr b ++ ve.memchunks.drop (i + 1) })

/-! ## ve_free -/

/-- The first loop: `virt_addr = NULL` on the first chunk at `ptr`. -/
def clearFirst (ptr : Nat) : List MemchunkT → List MemchunkT
  | [] => []
  | c :: cs => if c.virtAddr = ptr then { c with virtAddr := 0 } :: cs else c :: clearFirst ptr cs

/-- The second loop, at the chunk `c`: a free chunk takes in the free chunks
after it, and the loop goes on with the next. -/
def coalesce (c : MemchunkT) : List MemchunkT → List MemchunkT
  | [] => [c]
  | n :: cs =>
    if c.virtAddr = 0 ∧ n.virtAddr = 0 then coalesce { c with size := c.size + n.size } cs
    else c :: coalesce n cs

/-- The second loop from `first_memchunk` on. -/
def coalesceAll : List MemchunkT → List MemchunkT
  | [] => []
  | c :: cs => coalesce c cs

/-- `ve_free`. -/
def veFree (ptr : Nat) (ve : State) : State :=
  if ve.fd = -1 ∨ ptr = 0 then ve
  else { ve with memchunks := coalesceAll (clearFirst ptr ve.memchunks) }

/-! ## ve_virt2phys -/

/-- The loop of `ve_virt2phys`. -/
def findPhys (ptr : Nat) : List MemchunkT → UInt32
  | [] => 0
  | c :: cs =>
    if c.virtAddr = 0 then findPhys ptr cs
    else if c.virtAddr = ptr then c.physAddr
    else if c.virtAddr < ptr ∧ (ptr : Int) < c.virtAddr + c.size.toInt then
      c.physAddr + UInt32.ofNat (ptr - c.virtAddr)
    else findPhys ptr cs

/-- `ve_virt2phys`. -/
def veVirt2phys (ptr : Nat) (ve : State) : UInt32 := if ve.fd = -1 then 0 else findPhys ptr ve.memchunks

/-! ## ve_close -/

/-- `ve_close`: the descriptor goes, the list stays. -/
def veClose (ve : State) : State := if ve.fd = -1 then ve else { ve with fd := -1 }

/-! ## Calls -/

/-- The allocator and the pointers it has handed out that were not freed since. -/
structure Clients where
  ve : State
  outstanding : List Nat
deriving DecidableEq, Repr

def Clients.malloc (mmap : Mmap) (size : Int32) (write : Bool) (s : Clients) : Clients :=
  let r := veMalloc mmap size write s.ve
  ⟨r.2, if r.1 = 0 then s.outstanding else r.1 :: s.outstanding⟩

def Clients.free (ptr : Nat) (s : Clients) : Clients := ⟨veFree ptr s.ve, s.outstanding.erase ptr⟩

/-- A call of a client; `mmap` is the kernel at the time of the call. -/
inductive Call
  | malloc (mmap : Mmap) (size : Int32) (write : Bool)
  | free (ptr : Nat)

/-- Every call returns. -/
def step (s : Clients) : Call → Option Clients
  | .malloc mmap size write => some (s.malloc mmap size write)
  | .free ptr => some (s.free ptr)

/-- The clients of a device whose one successful `ve_open` reported `info`. -/
def machine (info : VeInfo) : Machine Clients Call where
  init s := ∃ fd regs, veOpen fd (some info) regs static = (true, s.ve) ∧ s.outstanding = []
  step := step

/-- `mmap` maps no empty or negative size, and its answer is neither `NULL` nor
an address it has mapped for a client that still holds it. -/
def Mapped (s : Clients) : Call → Prop
  | .malloc mmap _ _ => ∀ size write offset addr, mmap size write offset = some addr →
      0 < size ∧ addr ≠ 0 ∧ addr ∉ s.outstanding
  | .free _ => True

/-! ## What the functions do -/

/-- A chunk is free when nothing is mapped on it. -/
def MemchunkT.Free (c : MemchunkT) : Prop := c.virtAddr = 0

instance (c : MemchunkT) : Decidable c.Free := inferInstanceAs (Decidable (c.virtAddr = 0))

/-- The virtual addresses of the chunks that are not free. -/
def lives (cs : List MemchunkT) : List Nat := (cs.map MemchunkT.virtAddr).filter (· ≠ 0)

/-- No two neighbours are both free. -/
def Coalesced (cs : List MemchunkT) : Prop := cs.IsChain fun c d => ¬ (c.Free ∧ d.Free)

@[simp] theorem lives_append (cs ds : List MemchunkT) : lives (cs ++ ds) = lives cs ++ lives ds := by
  simp [lives]

theorem lives_cons (c : MemchunkT) (cs : List MemchunkT) :
    lives (c :: cs) = if c.virtAddr = 0 then lives cs else c.virtAddr :: lives cs := by
  unfold lives
  split
  · next h => simp [h]
  · next h => simp [h]

theorem mem_lives {p : Nat} {cs : List MemchunkT} : p ∈ lives cs ↔ p ≠ 0 ∧ ∃ c ∈ cs, c.virtAddr = p := by
  simp only [lives, List.mem_filter, List.mem_map, decide_eq_true_eq, ne_eq]
  exact and_comm

/-- Nothing is mapped when every chunk is free. -/
theorem lives_eq_nil {cs : List MemchunkT} : lives cs = [] ↔ ∀ c ∈ cs, c.Free := by
  rw [List.eq_nil_iff_forall_not_mem]
  constructor
  · intro h c hc
    by_contra hf
    exact h c.virtAddr (mem_lives.2 ⟨hf, c, hc, rfl⟩)
  · intro h p hp
    obtain ⟨hp0, c, hc, rfl⟩ := mem_lives.1 hp
    exact hp0 (h c hc)

theorem better_cases {i j : Nat} {c b : MemchunkT} {best : Option (Nat × MemchunkT)}
    (h : better i c best = some (j, b)) : best = some (j, b) ∨ i = j ∧ c = b := by
  unfold better at h
  split at h
  · cases h
    exact .inr ⟨rfl, rfl⟩
  · split at h
    · cases h
      exact .inr ⟨rfl, rfl⟩
    · exact .inl h

/-- The search returns what it had, or a free chunk of the list that is large enough. -/
theorem bestChunk_cases {size : Int32} {cs : List MemchunkT} {i j : Nat} {best : Option (Nat × MemchunkT)}
    {b : MemchunkT} (h : bestChunk size cs i best = some (j, b)) :
    best = some (j, b) ∨ ∃ pre post, cs = pre ++ b :: post ∧ j = i + pre.length ∧ b.Free ∧ size ≤ b.size := by
  induction cs generalizing i best with
  | nil => exact .inl h
  | cons c cs ih =>
    -- A chunk found further on is one place further from the start.
    have later : (∃ pre post, cs = pre ++ b :: post ∧ j = i + 1 + pre.length ∧ b.Free ∧ size ≤ b.size) →
        ∃ pre post, c :: cs = pre ++ b :: post ∧ j = i + pre.length ∧ b.Free ∧ size ≤ b.size := by
      rintro ⟨pre, post, rfl, rfl, hb⟩
      refine ⟨c :: pre, post, rfl, ?_, hb⟩
      rw [List.length_cons]
      omega
    unfold bestChunk at h
    split at h
    · next hc =>
      have here : better i c best = some (j, b) → best = some (j, b) ∨
          ∃ pre post, c :: cs = pre ++ b :: post ∧ j = i + pre.length ∧ b.Free ∧ size ≤ b.size := by
        intro h'
        rcases better_cases h' with h' | ⟨rfl, rfl⟩
        · exact .inl h'
        · exact .inr ⟨[], cs, rfl, rfl, hc⟩
      split at h
      · exact here h
      · rcases ih h with h' | h'
        · exact here h'
        · exact .inr (later h')
    · rcases ih h with h' | h'
      · exact .inl h'
      · exact .inr (later h')

/-- `ve_malloc` fails and changes nothing, or maps a free chunk that is large
enough and splits it. -/
theorem veMalloc_cases (mmap : Mmap) (size : Int32) (write : Bool) (ve : State) :
    veMalloc mmap size write ve = (0, ve) ∨
    ∃ pre b post addr, ve.memchunks = pre ++ b :: post ∧ b.Free ∧ roundUp size ≤ b.size ∧ addr ≠ 0 ∧
      mmap (roundUp size) write (b.physAddr + pageOffset) = some addr ∧
      veMalloc mmap size write ve =
        (addr, { ve with memchunks := pre ++ split (roundUp size) addr b ++ post }) := by
  unfold veMalloc
  split
  · exact .inl rfl
  dsimp only
  split
  · exact .inl rfl
  next i b hb =>
  split
  · exact .inl rfl
  · exact .inl rfl
  next addr ha hm =>
  obtain ⟨pre, post, he, hi, hf, hs⟩ := (bestChunk_cases hb).resolve_left (by simp)
  refine .inr ⟨pre, b, post, addr, he, hf, hs, fun e => ha (by rw [e]), hm, ?_⟩
  have htake : ve.memchunks.take i = pre := by
    rw [he, hi, Nat.zero_add, List.take_left]
  have hdrop : ve.memchunks.drop (i + 1) = post := by
    rw [he, hi, Nat.zero_add, ← List.drop_drop, List.drop_left]
    rfl
  rw [htake, hdrop]

theorem clearFirst_of_notMem {ptr : Nat} {cs : List MemchunkT} (h : ∀ c ∈ cs, c.virtAddr ≠ ptr) :
    clearFirst ptr cs = cs := by
  induction cs with
  | nil => rfl
  | cons c cs ih =>
    rw [clearFirst, if_neg (h c (by simp)), ih fun d hd => h d (by simp [hd])]

/-- What is mapped after the first loop. -/
theorem lives_clearFirst {ptr : Nat} (h0 : ptr ≠ 0) (cs : List MemchunkT) :
    lives (clearFirst ptr cs) = (lives cs).erase ptr := by
  induction cs with
  | nil => rfl
  | cons c cs ih =>
    unfold clearFirst
    split
    · next h => rw [lives_cons, lives_cons, if_pos rfl, h, if_neg h0, List.erase_cons_head]
    · next h =>
      rw [lives_cons, lives_cons, ih]
      split
      · rfl
      · rw [List.erase_cons_tail (by simpa using h)]

theorem coalesceAll_eq {cs : List MemchunkT} (h : Coalesced cs) : coalesceAll cs = cs := by
  cases cs with
  | nil => rfl
  | cons c cs =>
    show coalesce c cs = c :: cs
    induction cs generalizing c with
    | nil => rfl
    | cons n cs ih =>
      obtain ⟨hcn, h'⟩ := List.isChain_cons_cons.1 h
      rw [coalesce, if_neg (show ¬ (c.virtAddr = 0 ∧ n.virtAddr = 0) from hcn), ih n h']

theorem lives_coalesce (c : MemchunkT) (cs : List MemchunkT) : lives (coalesce c cs) = lives (c :: cs) := by
  induction cs generalizing c with
  | nil => rfl
  | cons n cs ih =>
    unfold coalesce
    split
    · next h => rw [ih, lives_cons, lives_cons, lives_cons, if_pos h.1, if_pos h.1, if_pos h.2]
    · rw [lives_cons, lives_cons, ih]

theorem lives_coalesceAll (cs : List MemchunkT) : lives (coalesceAll cs) = lives cs := by
  cases cs with
  | nil => rfl
  | cons c cs => exact lives_coalesce c cs

/-- The first chunk stays where it is, free or not. -/
theorem coalesce_head (c : MemchunkT) (cs : List MemchunkT) :
    ∃ c' ds, coalesce c cs = c' :: ds ∧ c'.virtAddr = c.virtAddr := by
  induction cs generalizing c with
  | nil => exact ⟨c, [], rfl, rfl⟩
  | cons n cs ih =>
    unfold coalesce
    split
    · exact ih _
    · exact ⟨c, _, rfl, rfl⟩

theorem coalesced_coalesce (c : MemchunkT) (cs : List MemchunkT) : Coalesced (coalesce c cs) := by
  induction cs generalizing c with
  | nil => exact .singleton c
  | cons n cs ih =>
    unfold coalesce
    split
    · exact ih _
    · next h =>
      obtain ⟨n', ds, he, hn⟩ := coalesce_head n cs
      have := ih n
      rw [he] at this ⊢
      refine List.isChain_cons_cons.2 ⟨?_, this⟩
      rw [MemchunkT.Free, MemchunkT.Free, hn]
      exact h

theorem coalesced_coalesceAll (cs : List MemchunkT) : Coalesced (coalesceAll cs) := by
  cases cs with
  | nil => exact .nil
  | cons c cs => exact coalesced_coalesce c cs

end Camview.Ve
