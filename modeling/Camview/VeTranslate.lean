/-
`ve_virt2phys` over whole runs of the allocator. What the kernel has mapped for
the clients is a list of its own, filled by `mmap` and emptied by `munmap`; the
chunks that are not free are this list in another order, so the search through
the chunks answers what the kernel's mappings say.
-/
import Camview.VeInvariant

namespace Camview.Ve

/-- A virtual range and the physical address behind it. -/
structure Mapping where
  virt : Nat
  size : Int32
  phys : UInt32
deriving DecidableEq, Repr

def Mapping.range (m : Mapping) : Set Nat := { p | m.virt ≤ p ∧ p < m.virt + bytes m.size }

/-- One ends before the other starts. -/
def Mapping.Apart (m n : Mapping) : Prop := m.virt + bytes m.size ≤ n.virt ∨ n.virt + bytes n.size ≤ m.virt

/-- The physical addresses of the two do not meet. -/
def Mapping.PhysApart (m n : Mapping) : Prop :=
  ∀ i < bytes m.size, ∀ j < bytes n.size, m.phys + UInt32.ofNat i ≠ n.phys + UInt32.ofNat j

/-- What is mapped according to the chunk list. -/
def mappings (cs : List MemchunkT) : List Mapping :=
  (cs.filter (·.virtAddr ≠ 0)).map fun c => ⟨c.virtAddr, c.size, c.physAddr⟩

/-! ## The mappings of a list -/

variable {cs : List MemchunkT}

theorem mappings_cons (c : MemchunkT) (cs : List MemchunkT) :
    mappings (c :: cs) =
      if c.virtAddr = 0 then mappings cs else ⟨c.virtAddr, c.size, c.physAddr⟩ :: mappings cs := by
  unfold mappings
  split
  · next h => rw [List.filter_cons_of_neg (by simpa using h)]
  · next h => rw [List.filter_cons_of_pos (by simpa using h), List.map_cons]

@[simp] theorem mappings_append (cs ds : List MemchunkT) : mappings (cs ++ ds) = mappings cs ++ mappings ds := by
  simp [mappings]

theorem mem_mappings {m : Mapping} :
    m ∈ mappings cs ↔ ∃ c ∈ cs, c.virtAddr ≠ 0 ∧ ⟨c.virtAddr, c.size, c.physAddr⟩ = m := by
  simp [mappings, and_assoc]

theorem map_virt_mappings (cs : List MemchunkT) : (mappings cs).map Mapping.virt = lives cs := by
  induction cs with
  | nil => rfl
  | cons c cs ih =>
    rw [mappings_cons, lives_cons]
    split
    · exact ih
    · rw [List.map_cons, ih]

theorem mappings_split {pre post : List MemchunkT} {c : MemchunkT} {size : Int32} {addr : Nat} (hc : c.Free)
    (ha : addr ≠ 0) :
    (mappings (pre ++ split size addr c ++ post)).Perm (⟨addr, size, c.physAddr⟩ :: mappings (pre ++ c :: post)) := by
  have hs : mappings (split size addr c) = [⟨addr, size, c.physAddr⟩] := by
    unfold split
    dsimp only
    rw [mappings_cons, if_neg ha]
    split <;> rfl
  rw [mappings_append, mappings_append, mappings_append, hs, mappings_cons, if_pos (show c.virtAddr = 0 from hc),
    List.append_assoc]
  exact List.perm_middle

/-- The first loop of `ve_free` takes the mapping at `ptr` away. -/
theorem mappings_clearFirst {ptr : Nat} (h0 : ptr ≠ 0) (h : (lives cs).Nodup) :
    mappings (clearFirst ptr cs) = (mappings cs).filter (·.virt ≠ ptr) := by
  induction cs with
  | nil => rfl
  | cons c cs ih =>
    rw [lives_cons] at h
    unfold clearFirst
    split
    · next hc =>
      -- No other chunk is mapped at `ptr`.
      rw [hc, if_neg h0] at h
      have hne : ∀ m ∈ mappings cs, m.virt ≠ ptr := by
        intro m hm he
        refine (List.nodup_cons.1 h).1 ?_
        rw [← map_virt_mappings, ← he]
        exact List.mem_map_of_mem hm
      rw [mappings_cons, if_pos rfl, mappings_cons, if_neg (by rw [hc]; exact h0),
        List.filter_cons_of_neg (by simpa using hc), List.filter_eq_self.2 (by simpa using hne)]
    · next hc =>
      rw [mappings_cons, mappings_cons]
      split
      · next hf =>
        rw [if_pos hf] at h
        exact ih h
      · next hf =>
        rw [if_neg hf] at h
        rw [List.filter_cons_of_pos (by simpa using hc), ih (List.nodup_cons.1 h).2]

theorem mappings_coalesce (c : MemchunkT) (cs : List MemchunkT) : mappings (coalesce c cs) = mappings (c :: cs) := by
  induction cs generalizing c with
  | nil => rfl
  | cons n cs ih =>
    unfold coalesce
    split
    · next h =>
      rw [ih, mappings_cons, mappings_cons, mappings_cons, if_pos h.1, if_pos h.1, if_pos h.2]
    · rw [mappings_cons, mappings_cons, ih]

theorem mappings_coalesceAll (cs : List MemchunkT) : mappings (coalesceAll cs) = mappings cs := by
  cases cs with
  | nil => rfl
  | cons c cs => exact mappings_coalesce c cs

/-! ## The search -/

/-- A pointer into a mapping. -/
theorem findPhys_of_mem {m : Mapping} {o : Nat} (hapart : (mappings cs).Pairwise Mapping.Apart)
    (hpos : ∀ n ∈ mappings cs, 0 < bytes n.size) (hm : m ∈ mappings cs) (ho : o < bytes m.size) :
    findPhys (m.virt + o) cs = m.phys + UInt32.ofNat o := by
  induction cs with
  | nil => exact absurd hm List.not_mem_nil
  | cons c cs ih =>
    rw [mappings_cons] at hapart hpos hm
    unfold findPhys
    by_cases hf : c.virtAddr = 0
    · rw [if_pos hf] at hapart hpos hm ⊢
      exact ih hapart hpos hm
    rw [if_neg hf] at hapart hpos hm ⊢
    rcases List.mem_cons.1 hm with rfl | hm
    · by_cases h0 : o = 0
      · rw [h0, if_pos (Nat.add_zero _).symm]
        exact (UInt32.add_zero _).symm
      · have ho' : o < c.size.toInt.toNat := ho
        dsimp only
        rw [if_neg (by omega), if_pos ⟨by omega, by omega⟩, Nat.add_sub_cancel_left]
    · have hc : 0 < bytes c.size := hpos _ (List.mem_cons_self ..)
      have hsize : bytes c.size = c.size.toInt.toNat := rfl
      have happ : c.virtAddr + bytes c.size ≤ m.virt ∨ m.virt + bytes m.size ≤ c.virtAddr :=
        (List.pairwise_cons.1 hapart).1 m hm
      rw [if_neg (by omega), if_neg (by omega)]
      exact ih (List.pairwise_cons.1 hapart).2 (fun n hn => hpos n (List.mem_cons_of_mem _ hn)) hm

/-- A pointer into no mapping. -/
theorem findPhys_outside {p : Nat} (hpos : ∀ n ∈ mappings cs, 0 < bytes n.size) (hp : ∀ n ∈ mappings cs, p ∉ n.range) :
    findPhys p cs = 0 := by
  induction cs with
  | nil => rfl
  | cons c cs ih =>
    rw [mappings_cons] at hpos hp
    unfold findPhys
    by_cases hf : c.virtAddr = 0
    · rw [if_pos hf] at hpos hp ⊢
      exact ih hpos hp
    rw [if_neg hf] at hpos hp ⊢
    have hc : 0 < bytes c.size := hpos _ (List.mem_cons_self ..)
    have hout : ¬ (c.virtAddr ≤ p ∧ p < c.virtAddr + bytes c.size) := hp _ (List.mem_cons_self ..)
    have hsize : bytes c.size = c.size.toInt.toNat := rfl
    rw [if_neg (by omega), if_neg (by omega)]
    exact ih (fun n hn => hpos n (List.mem_cons_of_mem _ hn)) fun n hn => hp n (List.mem_cons_of_mem _ hn)

/-! ## Runs -/

/-- The clients, and what is mapped for them. -/
structure Process where
  clients : Clients
  mapped : List Mapping

/-- The mapping a call of `ve_malloc` makes. -/
def newMapping (mmap : Mmap) (size : Int32) (write : Bool) (ve : State) : Option Mapping :=
  if ve.fd = -1 then none
  else
    match bestChunk (roundUp size) ve.memchunks 0 none with
    | none => none
    | some (_, b) =>
      match mmap (roundUp size) write (b.physAddr + pageOffset) with
      | none | some 0 => none
      | some addr => some ⟨addr, roundUp size, b.physAddr⟩

/-- A call, with the `mmap` or `munmap` in it. -/
def Process.step (s : Process) : Call → Option Process
  | .malloc mmap size write =>
    some ⟨s.clients.malloc mmap size write, (newMapping mmap size write s.clients.ve).toList ++ s.mapped⟩
  | .free ptr => some ⟨s.clients.free ptr, s.mapped.filter (·.virt ≠ ptr)⟩

/-- The clients of `machine`, with their mappings. -/
def process (info : VeInfo) : Machine Process Call where
  init s := (machine info).init s.clients ∧ s.mapped = []
  step := Process.step

/-- `mmap` maps nothing empty, nothing at `NULL`, and nothing where a mapping is. -/
def MappedApart (s : Process) : Call → Prop
  | .malloc mmap _ _ => ∀ size write offset addr, mmap size write offset = some addr →
      0 < size ∧ addr ≠ 0 ∧ ∀ m ∈ s.mapped, m.virt + bytes m.size ≤ addr ∨ addr + bytes size ≤ m.virt
  | .free _ => True

theorem veMalloc_newMapping (mmap : Mmap) (size : Int32) (write : Bool) (ve : State) :
    newMapping mmap size write ve = none ∧ veMalloc mmap size write ve = (0, ve) ∨
    ∃ pre b post addr, ve.memchunks = pre ++ b :: post ∧ b.Free ∧ addr ≠ 0 ∧
      mmap (roundUp size) write (b.physAddr + pageOffset) = some addr ∧
      newMapping mmap size write ve = some ⟨addr, roundUp size, b.physAddr⟩ ∧
      veMalloc mmap size write ve =
        (addr, { ve with memchunks := pre ++ split (roundUp size) addr b ++ post }) := by
  unfold newMapping veMalloc
  by_cases hfd : ve.fd = -1
  · rw [if_pos hfd, if_pos hfd]
    exact .inl ⟨rfl, rfl⟩
  rw [if_neg hfd, if_neg hfd]
  dsimp only
  rcases hb : bestChunk (roundUp size) ve.memchunks 0 none with - | ⟨i, b⟩
  · exact .inl ⟨rfl, rfl⟩
  obtain ⟨pre, post, he, hi, hf, -⟩ := (bestChunk_cases hb).resolve_left (by simp)
  dsimp only
  rcases hm : mmap (roundUp size) write (b.physAddr + pageOffset) with - | - | addr
  · exact .inl ⟨rfl, rfl⟩
  · exact .inl ⟨rfl, rfl⟩
  · refine .inr ⟨pre, b, post, addr + 1, he, hf, Nat.succ_ne_zero addr, hm, rfl, ?_⟩
    rw [he, hi, Nat.zero_add, List.take_left, ← List.drop_drop, List.drop_left]
    rfl

/-- What the translation needs of the allocator, whatever the size of its region. -/
structure Sound (s : Clients) : Prop where
  opened : s.ve.fd ≠ -1
  live : s.outstanding.Perm (lives s.ve.memchunks)
  nodup : s.outstanding.Nodup
  positive : ∀ m ∈ mappings s.ve.memchunks, 0 < bytes m.size
  physApart : (mappings s.ve.memchunks).Pairwise Mapping.PhysApart

/-! ## Every region -/

/-- Nothing can be allocated in an empty region. -/
theorem via_empty {info : VeInfo} (hN : ¬ 0 < info.reservedMemSize) {s : Clients} (h : (machine info).Via Mapped s) :
    s.ve.fd ≠ -1 ∧ s.ve.memchunks = [⟨info.base, info.reservedMemSize, 0⟩] ∧ s.outstanding = [] := by
  refine h.invariant (I := fun s : Clients => s.ve.fd ≠ -1 ∧ s.ve.memchunks = [⟨info.base, info.reservedMemSize, 0⟩] ∧
    s.outstanding = []) ?_ ?_
  · intro s ⟨fd, regs, ho, hs⟩
    obtain ⟨hfd, hve⟩ := veOpen_eq_true ho
    rw [hve]
    exact ⟨hfd, rfl, hs⟩
  · intro s a s' _ ⟨hfd, hc, ho⟩ hm hs
    cases a with
    | malloc mmap size write =>
      cases hs
      unfold Clients.malloc
      rcases veMalloc_cases mmap size write s.ve with e | ⟨pre, c, post, addr, he, -, hle, -, hmap, -⟩
      · rw [e]
        exact ⟨hfd, hc, ho⟩
      · obtain ⟨h0, -⟩ := hm _ _ _ _ hmap
        have hmem : c ∈ s.ve.memchunks := by simp [he]
        rw [hc] at hmem
        rw [List.mem_singleton.1 hmem] at hle
        exact absurd (Int32.lt_of_lt_of_le h0 hle) hN
    | free ptr =>
      cases hs
      unfold Clients.free veFree
      split
      · exact ⟨hfd, hc, by rw [ho]; rfl⟩
      · next h0 =>
        refine ⟨hfd, ?_, by rw [ho]; rfl⟩
        have h0' : ¬ 0 = ptr := fun e => h0 (.inr e.symm)
        dsimp only
        rw [hc, clearFirst, if_neg h0']
        rfl

/-- Chunks of a tiling have different physical addresses. -/
theorem Inv.physApart {info : VeInfo} {s : Clients} (h : Inv info s) :
    (mappings s.ve.memchunks).Pairwise Mapping.PhysApart := by
  unfold mappings
  refine List.pairwise_map.2 ((h.disjoint.filter _).imp ?_)
  intro c d hcd i hi j hj he
  exact hcd _ ⟨i, hi, rfl⟩ ⟨j, hj, he⟩

theorem via_sound {info : VeInfo} {s : Clients} (h : (machine info).Via Mapped s) : Sound s := by
  by_cases hN : 0 < info.reservedMemSize
  · have hi := via_inv hN h
    refine ⟨hi.opened, hi.live, hi.nodup, ?_, hi.physApart⟩
    intro m hm
    obtain ⟨c, hc, -, rfl⟩ := mem_mappings.1 hm
    exact bytes_pos.2 (hi.positive hc)
  · obtain ⟨hfd, hc, ho⟩ := via_empty hN h
    have hm : mappings s.ve.memchunks = [] := by rw [hc]; rfl
    refine ⟨hfd, ?_, by rw [ho]; exact .nil, by simp [hm], by simp [hm]⟩
    rw [ho, hc]
    exact .refl _

/-! ## The kernel's mappings -/

theorem Mapping.Apart.symm {m n : Mapping} (h : m.Apart n) : n.Apart m := Or.symm h

instance : Std.Symm Mapping.PhysApart := ⟨fun _ _ h i hi j hj e => h j hj i hi e.symm⟩

variable {info : VeInfo} {s s' : Process}

/-- The clients run as before, and the chunks that are not free are what is mapped. -/
structure Tracks (info : VeInfo) (s : Process) : Prop where
  run : (machine info).Via Mapped s.clients
  mapped : s.mapped.Perm (mappings s.clients.ve.memchunks)
  apart : s.mapped.Pairwise Mapping.Apart

/-- An answer of `mmap` away from every mapping is an address no client holds. -/
theorem Tracks.mapped_of_apart (h : Tracks info s) {a : Call} (ha : MappedApart s a) : Mapped s.clients a := by
  cases a with
  | free ptr => trivial
  | malloc mmap size write =>
    intro size write offset addr he
    obtain ⟨hpos, h0, hapart⟩ := ha size write offset addr he
    refine ⟨hpos, h0, fun hmem => ?_⟩
    have hs := via_sound h.run
    rw [hs.live.mem_iff, ← map_virt_mappings, ← (h.mapped.map Mapping.virt).mem_iff] at hmem
    obtain ⟨m, hm, rfl⟩ := List.mem_map.1 hmem
    have hm0 := hs.positive m (h.mapped.mem_iff.1 hm)
    have hnew := bytes_pos.2 hpos
    have hap := hapart m hm
    omega

theorem Tracks.step (h : Tracks info s) {a : Call} (ha : MappedApart s a) (hs : s.step a = some s') :
    Tracks info s' := by
  have hmapped := h.mapped_of_apart ha
  cases a with
  | malloc mmap size write =>
    cases hs
    have hrun := h.run.next hmapped (rfl : (machine info).step _ _ = some (s.clients.malloc mmap size write))
    rcases veMalloc_newMapping mmap size write s.clients.ve with
      ⟨hn, hv⟩ | ⟨pre, b, post, addr, he, hf, h0, hmap, hn, hv⟩
    · refine ⟨hrun, ?_, ?_⟩
      · rw [hn]
        unfold Clients.malloc
        rw [hv]
        exact h.mapped
      · rw [hn]
        exact h.apart
    · obtain ⟨-, -, hapart⟩ := ha _ _ _ _ hmap
      refine ⟨hrun, ?_, ?_⟩
      · rw [hn]
        unfold Clients.malloc
        rw [hv]
        have hp := h.mapped
        rw [he] at hp
        exact (hp.cons _).trans (mappings_split hf h0).symm
      · rw [hn]
        exact List.pairwise_cons.2 ⟨fun m hm => (hapart m hm).symm, h.apart⟩
  | free ptr =>
    cases hs
    have hsound := via_sound h.run
    have hrun := h.run.next hmapped (rfl : (machine info).step _ _ = some (s.clients.free ptr))
    refine ⟨hrun, ?_, h.apart.filter _⟩
    have hp := h.mapped.filter (·.virt ≠ ptr)
    unfold Clients.free veFree
    split
    · next h0 =>
      -- Nothing is mapped at `NULL`.
      obtain rfl : ptr = 0 := h0.resolve_left hsound.opened
      refine hp.trans ?_
      rw [List.filter_eq_self.2]
      intro m hm
      obtain ⟨c, -, hc, rfl⟩ := mem_mappings.1 hm
      simpa using hc
    · next h0 =>
      dsimp only
      rw [mappings_coalesceAll, mappings_clearFirst (fun e => h0 (.inr e)) (hsound.live.nodup_iff.1 hsound.nodup)]
      exact hp

theorem via_tracks (h : (process info).Via MappedApart s) : Tracks info s := by
  refine h.invariant ?_ fun s a s' _ hi ha hs => hi.step ha hs
  intro s ⟨hi, hm⟩
  refine ⟨.start hi, ?_, by rw [hm]; exact .nil⟩
  obtain ⟨fd, regs, ho, -⟩ := hi
  obtain ⟨-, hve⟩ := veOpen_eq_true ho
  rw [hm, hve]
  exact .refl _

/-! ## The translation -/

/-- `f` translates as the mappings do: an offset into a mapping to the same offset
behind its physical base, no two pointers into mappings to one address, and a
pointer into no mapping to 0. -/
structure Translates (mapped : List Mapping) (f : Nat → UInt32) : Prop where
  base : ∀ m ∈ mapped, ∀ o < bytes m.size, f (m.virt + o) = m.phys + UInt32.ofNat o
  injective : ∀ m ∈ mapped, ∀ n ∈ mapped, ∀ p ∈ m.range, ∀ q ∈ n.range, f p = f q → p = q
  outside : ∀ p, (∀ m ∈ mapped, p ∉ m.range) → f p = 0

/-- An offset into a mapping is translated to the same offset behind its base. -/
theorem Tracks.veVirt2phys_eq (h : Tracks info s) {m : Mapping} (hm : m ∈ s.mapped) {o : Nat} (ho : o < bytes m.size) :
    veVirt2phys (m.virt + o) s.clients.ve = m.phys + UInt32.ofNat o := by
  have hs := via_sound h.run
  have hapart := (h.mapped.pairwise_iff Mapping.Apart.symm).1 h.apart
  rw [veVirt2phys, if_neg hs.opened]
  exact findPhys_of_mem hapart hs.positive (h.mapped.mem_iff.1 hm) ho

/-- **`ve_virt2phys` translates.** In every state that calls of `ve_malloc` and
`ve_free` lead to after one `ve_open`, of any region. -/
theorem ve_virt2phys_translates (h : (process info).Via MappedApart s) :
    Translates s.mapped (veVirt2phys · s.clients.ve) := by
  have ht := via_tracks h
  have hs := via_sound ht.run
  refine ⟨fun m hm o ho => ht.veVirt2phys_eq hm ho, ?_, ?_⟩
  · intro m hm n hn p hp q hq he
    obtain ⟨i, rfl⟩ := Nat.exists_eq_add_of_le hp.1
    obtain ⟨j, rfl⟩ := Nat.exists_eq_add_of_le hq.1
    have hi : i < bytes m.size := Nat.lt_of_add_lt_add_left hp.2
    have hj : j < bytes n.size := Nat.lt_of_add_lt_add_left hq.2
    rw [ht.veVirt2phys_eq hm hi, ht.veVirt2phys_eq hn hj] at he
    by_cases hmn : m = n
    · subst hmn
      have := bytes_lt m.size
      rw [place_inj (p := m.phys) (by omega) (by omega) he]
    · have hphys := hs.physApart.forall (ht.mapped.mem_iff.1 hm) (ht.mapped.mem_iff.1 hn) hmn
      exact absurd he (hphys i hi j hj)
  · intro p hp
    rw [veVirt2phys, if_neg hs.opened]
    exact findPhys_outside hs.positive fun m hm => hp m (ht.mapped.mem_iff.2 hm)

/-- Two allocations, the first of them freed. -/
theorem ve_virt2phys_translates_sample :
    ∃ s, (process ⟨0xc3000000, 0x10000⟩).exec ⟨⟨⟨3, [⟨0x3000000, 0x10000, 0⟩]⟩, []⟩, []⟩
        [.malloc (mapAt 0x10000) 5000 true, .malloc (mapAt 0x20000) 0x1000 false, .free 0x10000] = some s ∧
      s.mapped = [⟨0x20000, 0x1000, 0x3002000⟩] ∧ Translates s.mapped (veVirt2phys · s.clients.ve) := by
  refine ⟨_, rfl, by decide, ?_⟩
  have maps {addr : Nat} {s : Process} (h0 : addr ≠ 0) (h : ∀ m ∈ s.mapped, m.virt + bytes m.size ≤ addr)
      (size : Int32) (write : Bool) : MappedApart s (.malloc (mapAt addr) size write) := by
    intro size' _ _ a ha
    obtain ⟨hs, rfl⟩ : 0 < size' ∧ addr = a := by simpa [mapAt] using ha
    exact ⟨hs, h0, fun m hm => .inl (h m hm)⟩
  have h0 : (process ⟨0xc3000000, 0x10000⟩).Via MappedApart ⟨⟨⟨3, [⟨0x3000000, 0x10000, 0⟩]⟩, []⟩, []⟩ :=
    .start ⟨⟨3, some 0x1000, rfl, rfl⟩, rfl⟩
  have h1 := h0.next (maps (by decide : 0x10000 ≠ 0) (by decide) 5000 true) rfl
  have h2 := h1.next (maps (by decide : 0x20000 ≠ 0) (by decide) 0x1000 false) rfl
  exact ve_virt2phys_translates (h2.next (by trivial : MappedApart _ (.free 0x10000)) rfl)

end Camview.Ve
