/-
The device closed and opened again. `ve_close` leaves the chunk list as it is and
`ve_open` sets the address and the size of its first chunk only, so the list
starts afresh exactly when one free chunk was left of it: when every allocation
was freed.

What is needed of the list for this (`Shaped`) does not depend on the region, so
it holds over any number of sessions, those included that started from a list
that was not fresh.
-/
import Camview.VeTranslate

namespace Camview.Ve

/-- A call of a client, of `ve_close`, or of `ve_open` with what the kernel answers. -/
inductive DeviceCall
  | call (c : Call)
  | close
  | open (fd : Int32) (info : Option VeInfo) (regs : Option Nat)

/-- A pointer freed while the device is closed is still held. -/
def deviceStep (s : Clients) : DeviceCall → Option Clients
  | .call (.malloc mmap size write) => some (s.malloc mmap size write)
  | .call (.free ptr) => some ⟨veFree ptr s.ve, if s.ve.fd = -1 then s.outstanding else s.outstanding.erase ptr⟩
  | .close => some ⟨veClose s.ve, s.outstanding⟩
  | .open fd info regs => some ⟨(veOpen fd info regs s.ve).2, s.outstanding⟩

/-- From the start of the program. -/
def device : Machine Clients DeviceCall where
  init s := s = ⟨static, []⟩
  step := deviceStep

/-- The allocator of a region as `ve_open` should leave it: one free chunk, and so
every chunk handed out from then on is inside the region and apart from the others. -/
structure FreshStart (info : VeInfo) (ve : State) : Prop where
  single : ve.memchunks = [⟨info.base, info.reservedMemSize, 0⟩]
  disjoint : ∀ t, (machine info).Steps Mapped ⟨ve, []⟩ t →
    t.ve.memchunks.Pairwise fun c d => ∀ a ∈ c.range, a ∉ d.range
  inside : ∀ t, (machine info).Steps Mapped ⟨ve, []⟩ t → ∀ c ∈ t.ve.memchunks, c.range ⊆ info.region

/-! ## The list, whatever its region -/

/-- There is a chunk, no two free chunks are neighbours, and the chunks that are
not free are the allocations held. -/
structure Shaped (s : Clients) : Prop where
  nonempty : s.ve.memchunks ≠ []
  coalesced : Coalesced s.ve.memchunks
  live : s.outstanding.Perm (lives s.ve.memchunks)

variable {s s' : Clients}

theorem coalesceAll_ne_nil {cs : List MemchunkT} (h : cs ≠ []) : coalesceAll cs ≠ [] := by
  cases cs with
  | nil => exact absurd rfl h
  | cons c cs =>
    obtain ⟨c', ds, he, -⟩ := coalesce_head c cs
    show coalesce c cs ≠ []
    rw [he]
    exact List.cons_ne_nil _ _

theorem clearFirst_ne_nil {ptr : Nat} {cs : List MemchunkT} (h : cs ≠ []) : clearFirst ptr cs ≠ [] := by
  cases cs with
  | nil => exact absurd rfl h
  | cons c cs =>
    unfold clearFirst
    split
    · exact List.cons_ne_nil _ _
    · exact List.cons_ne_nil _ _

/-- `ve_open` maps nothing and frees nothing. -/
theorem map_virtAddr_setFirstMemchunk (info : VeInfo) (cs : List MemchunkT) :
    (setFirstMemchunk info cs).map MemchunkT.virtAddr = cs.map MemchunkT.virtAddr := by
  cases cs with
  | nil => rfl
  | cons c cs => rfl

theorem lives_setFirstMemchunk (info : VeInfo) (cs : List MemchunkT) :
    lives (setFirstMemchunk info cs) = lives cs := by
  unfold lives
  rw [map_virtAddr_setFirstMemchunk]

theorem Coalesced.setFirstMemchunk {info : VeInfo} {cs : List MemchunkT} (h : Coalesced cs) :
    Coalesced (setFirstMemchunk info cs) := by
  cases cs with
  | nil => exact h
  | cons c cs =>
    cases cs with
    | nil => exact .singleton _
    | cons d cs => exact List.isChain_cons_cons.2 (List.isChain_cons_cons.1 h)

theorem Shaped.malloc (h : Shaped s) (mmap : Mmap) (size : Int32) (write : Bool) :
    Shaped (s.malloc mmap size write) := by
  unfold Clients.malloc
  rcases veMalloc_cases mmap size write s.ve with e | ⟨pre, c, post, addr, he, hf, -, ha, -, e⟩
  · rw [e]
    exact h
  · have hco := h.coalesced
    have hl := h.live
    rw [he] at hco hl
    rw [e]
    dsimp only
    rw [if_neg ha]
    refine ⟨?_, hco.split hf ha, (hl.cons addr).trans (lives_split hf ha).symm⟩
    simp [split]

theorem Shaped.step (h : Shaped s) {a : DeviceCall} (hs : deviceStep s a = some s') : Shaped s' := by
  cases a with
  | call c =>
    cases c with
    | malloc mmap size write =>
      cases hs
      exact h.malloc mmap size write
    | free ptr =>
      cases hs
      unfold veFree
      by_cases hfd : s.ve.fd = -1
      · rw [if_pos (.inl hfd), if_pos hfd]
        exact h
      rw [if_neg hfd]
      split
      · next h0 =>
        obtain rfl : ptr = 0 := h0.resolve_left hfd
        have hn : 0 ∉ s.outstanding := fun hm => (mem_lives.1 (h.live.subset hm)).1 rfl
        rw [List.erase_of_not_mem hn]
        exact h
      · next h0 =>
        refine ⟨coalesceAll_ne_nil (clearFirst_ne_nil h.nonempty), coalesced_coalesceAll _, ?_⟩
        dsimp only
        rw [lives_coalesceAll, lives_clearFirst fun e => h0 (.inr e)]
        exact h.live.erase ptr
  | close =>
    cases hs
    unfold veClose
    split
    · exact h
    · exact ⟨h.nonempty, h.coalesced, h.live⟩
  | «open» fd info regs =>
    cases hs
    unfold veOpen
    split
    · exact h
    split
    · exact ⟨h.nonempty, h.coalesced, h.live⟩
    split
    · refine ⟨?_, h.coalesced.setFirstMemchunk, ?_⟩
      · intro he
        have hmap := map_virtAddr_setFirstMemchunk ‹VeInfo› s.ve.memchunks
        dsimp only at he
        rw [he] at hmap
        exact h.nonempty (List.map_eq_nil_iff.1 hmap.symm)
      · dsimp only
        rw [lives_setFirstMemchunk]
        exact h.live
    · exact ⟨h.nonempty, h.coalesced, h.live⟩

theorem reach_shaped (h : device.Reach s) : Shaped s := by
  refine h.invariant ?_ fun s a s' _ hi hs => hi.step hs
  rintro s rfl
  exact ⟨List.cons_ne_nil _ _, .singleton _, .refl _⟩

/-- What is left of the list when nothing is held: one free chunk. -/
theorem Shaped.single (h : Shaped s) (ho : s.outstanding = []) : ∃ c, s.ve.memchunks = [c] ∧ c.Free := by
  have hfree := lives_eq_nil.1 (ho ▸ h.live).symm.eq_nil
  have hco := h.coalesced
  cases he : s.ve.memchunks with
  | nil => exact absurd he h.nonempty
  | cons c cs =>
    rw [he] at hfree hco
    obtain rfl : cs = [] := eq_singleton_of_isChain hco hfree
    exact ⟨c, rfl, hfree c (List.mem_singleton_self c)⟩

/-! ## Opening again -/

/-- One free chunk is all that `ve_allocator` needs of a start. -/
theorem freshStart_of_single {fd : Int32} {info : VeInfo} {ve : State} (hfd : fd ≠ -1)
    (h : ve = ⟨fd, [⟨info.base, info.reservedMemSize, 0⟩]⟩) : FreshStart info ve := by
  have hinit : (machine info).init ⟨ve, []⟩ := by
    refine ⟨fd, some 0, ?_, rfl⟩
    unfold veOpen
    rw [if_neg (by decide), if_neg hfd, h]
    rfl
  have hvia {t : Clients} (ht : (machine info).Steps Mapped ⟨ve, []⟩ t) : (machine info).Via Mapped t :=
    (Machine.Via.start hinit).steps ht
  refine ⟨by rw [h], ?_, ?_⟩
  · intro t ht
    by_cases hN : 0 < info.reservedMemSize
    · exact (via_inv hN (hvia ht)).disjoint
    · rw [(via_empty hN (hvia ht)).2.1]
      exact List.pairwise_singleton _ _
  · intro t ht c hc
    by_cases hN : 0 < info.reservedMemSize
    · exact (via_inv hN (hvia ht)).inside hc
    · rw [(via_empty hN (hvia ht)).2.1, List.mem_singleton] at hc
      rw [hc]
      exact fun a ha => ha

/-- **Opening again.** After any sequence of calls, `ve_close` and a successful
`ve_open` make a fresh start exactly if every allocation was freed. -/
theorem ve_reopen_fresh (h : device.Reach s) {fd : Int32} {info : VeInfo} {regs : Option Nat} {ve : State}
    (ho : veOpen fd (some info) regs (veClose s.ve) = (true, ve)) : FreshStart info ve ↔ s.outstanding = [] := by
  have hs := reach_shaped h
  have hclose : (veClose s.ve).memchunks = s.ve.memchunks := by
    unfold veClose
    split
    · rfl
    · rfl
  obtain ⟨hfd, hve⟩ := veOpen_eq_true ho
  rw [hclose] at hve
  constructor
  · intro hf
    have hl := congrArg lives hf.single
    rw [hve] at hl
    have hnil : lives s.ve.memchunks = [] := (lives_setFirstMemchunk info _).symm.trans hl
    exact (hnil ▸ hs.live).eq_nil
  · intro hnone
    obtain ⟨c, hc, hfree⟩ := hs.single hnone
    refine freshStart_of_single hfd ?_
    rw [hve, hc]
    show State.mk fd [⟨info.base, info.reservedMemSize, c.virtAddr⟩] = _
    rw [show c.virtAddr = 0 from hfree]

/-- A session that frees what it allocated. -/
theorem ve_reopen_fresh_sample : ∃ s, device.exec ⟨static, []⟩
      [.open 3 (some ⟨0xc3000000, 0x10000⟩) (some 0x1000), .call (.malloc (mapAt 0x10000) 5000 true),
        .call (.free 0x10000)] = some s ∧
    FreshStart ⟨0xc4000000, 0x20000⟩ ⟨4, [⟨0x4000000, 0x20000, 0⟩]⟩ := by
  obtain ⟨s, hs, ho, hr⟩ : ∃ s, device.exec ⟨static, []⟩
      [.open 3 (some ⟨0xc3000000, 0x10000⟩) (some 0x1000), .call (.malloc (mapAt 0x10000) 5000 true),
        .call (.free 0x10000)] = some s ∧ s.outstanding = [] ∧
      veOpen 4 (some ⟨0xc4000000, 0x20000⟩) (some 0x1000) (veClose s.ve) =
        (true, ⟨4, [⟨0x4000000, 0x20000, 0⟩]⟩) := ⟨_, rfl, by decide, by decide⟩
  exact ⟨s, hs, (ve_reopen_fresh (Machine.Reach.exec (.start rfl) hs) hr).2 ho⟩

/-- A page that is not freed before `ve_close` is still the first chunk, with all
of the new region behind its address. -/
theorem not_ve_reopen_fresh : ¬ ∀ (s : Clients) (fd : Int32) (info : VeInfo) (regs : Option Nat) (ve : State),
    device.Reach s → veOpen fd (some info) regs (veClose s.ve) = (true, ve) →
    ve.memchunks = [⟨info.base, info.reservedMemSize, 0⟩] := by
  intro h
  obtain ⟨s, hs, hr⟩ : ∃ s, device.exec ⟨static, []⟩
      [.open 3 (some ⟨0xc3000000, 0x10000⟩) (some 0x1000), .call (.malloc (mapAt 0x10000) 0x1000 true)] = some s ∧
      veOpen 4 (some ⟨0xc3000000, 0x10000⟩) (some 0x1000) (veClose s.ve) =
        (true, ⟨4, [⟨0x3000000, 0x10000, 0x10000⟩, ⟨0x3001000, 0xf000, 0⟩]⟩) := ⟨_, rfl, by decide⟩
  exact absurd (h s _ _ _ _ (Machine.Reach.exec (.start rfl) hs) hr) (by decide)

end Camview.Ve
