/-
The chunk list keeps no history: in every run of the allocator it is the one list for
what is mapped. So `ve_free` takes back the `ve_malloc` that returned the pointer, list
and all, and the order in which pointers are freed does not show.
-/
import Camview.VeTranslate

namespace Camview.Ve

/-- The list is that of any other run with the same mappings, an allocation that is
freed leaves no trace, and neither does the order of two calls of `ve_free`. -/
structure Canonical (info : VeInfo) (s : Clients) : Prop where
  same : ∀ s', (machine info).Via Mapped s' → mappings s'.ve.memchunks = mappings s.ve.memchunks →
    s'.ve.memchunks = s.ve.memchunks
  undo : ∀ mmap size write, Mapped s (.malloc mmap size write) → (veMalloc mmap size write s.ve).1 ≠ 0 →
    (s.malloc mmap size write).free (veMalloc mmap size write s.ve).1 = s
  comm : ∀ p q, (s.free p).free q = (s.free q).free p

variable {info : VeInfo} {s s' : Clients} {cs ds : List MemchunkT}

/-- The chunks that are mapped, from their mappings. -/
theorem filter_of_mappings (h : mappings cs = mappings ds) :
    cs.filter (¬ MemchunkT.Free ·) = ds.filter (¬ MemchunkT.Free ·) := by
  have hinj : Function.Injective fun c : MemchunkT => (⟨c.virtAddr, c.size, c.physAddr⟩ : Mapping) := by
    intro c d he
    simp only [Mapping.mk.injEq] at he
    obtain ⟨hv, hs, hp⟩ := he
    cases c
    cases d
    simp_all
  exact List.map_injective_iff.2 hinj h

/-- Two free chunks with the same place. -/
theorem free_ext {p : UInt32} {c d : MemchunkT} (hc : c.Free) (hd : d.Free) (hpos : 0 < (layout p).len c)
    (haddr : (layout p).addr c = (layout p).addr d) (hlen : (layout p).len c = (layout p).len d) : c = d := by
  have hposd : 0 < (layout p).len d := by rwa [← hlen]
  have hsize : c.size = d.size := eq_of_bytes (bytes_pos.1 hpos) (bytes_pos.1 hposd) hlen
  have hv : c.virtAddr = d.virtAddr := Eq.trans hc hd.symm
  cases c
  cases d
  simp_all [layout]

theorem Inv.canonical (h : Inv info s) (h' : Inv info s')
    (hm : mappings s.ve.memchunks = mappings s'.ve.memchunks) : s.ve.memchunks = s'.ve.memchunks := by
  have hN := bytes_lt info.reservedMemSize
  exact h.tiles.canonical (fun i j hi hj => place_inj (by omega) (by omega)) (fun _ _ => free_ext) h'.tiles h.coalesced
    h'.coalesced (filter_of_mappings hm)

/-- `ve_free` takes the mapping away, and nothing else. -/
theorem Inv.mappings_free (h : Inv info s) (ptr : Nat) :
    mappings (s.free ptr).ve.memchunks = (mappings s.ve.memchunks).filter (·.virt ≠ ptr) := by
  unfold Clients.free veFree
  split
  · next h0 =>
    obtain rfl : ptr = 0 := h0.resolve_left h.opened
    refine (List.filter_eq_self.2 fun m hm => ?_).symm
    obtain ⟨c, -, hc, rfl⟩ := mem_mappings.1 hm
    simpa using hc
  · next h0 =>
    dsimp only
    rw [mappings_coalesceAll, mappings_clearFirst (fun e => h0 (.inr e)) (h.live.nodup_iff.1 h.nodup)]

theorem free_fd (s : Clients) (ptr : Nat) : (s.free ptr).ve.fd = s.ve.fd := by
  unfold Clients.free veFree
  split <;> rfl

theorem clients_ext (hfd : s.ve.fd = s'.ve.fd) (hcs : s.ve.memchunks = s'.ve.memchunks)
    (ho : s.outstanding = s'.outstanding) : s = s' := by
  obtain ⟨⟨fd, cs⟩, out⟩ := s
  obtain ⟨⟨fd', cs'⟩, out'⟩ := s'
  simp_all

theorem Inv.undo (h : Inv info s) {mmap : Mmap} {size : Int32} {write : Bool}
    (hm : Mapped s (.malloc mmap size write)) (hp : (veMalloc mmap size write s.ve).1 ≠ 0) :
    (s.malloc mmap size write).free (veMalloc mmap size write s.ve).1 = s := by
  have hmalloc := h.malloc hm
  rcases veMalloc_cases mmap size write s.ve with e | ⟨pre, b, post, addr, he, hf, -, ha, hmap, e⟩
  · exact absurd (by rw [e]) hp
  have hs : s.malloc mmap size write =
      ⟨{ s.ve with memchunks := pre ++ split (roundUp size) addr b ++ post }, addr :: s.outstanding⟩ := by
    unfold Clients.malloc
    rw [e]
    exact congrArg _ (if_neg ha)
  have hnew : ∀ m ∈ mappings s.ve.memchunks, m.virt ≠ addr := by
    intro m hmem hv
    refine (hm _ _ _ _ hmap).2.2 (h.live.symm.subset ?_)
    rw [← map_virt_mappings, ← hv]
    exact List.mem_map_of_mem hmem
  rw [e]
  refine clients_ext ?_ ((hmalloc.free addr).canonical h ?_) ?_
  · rw [free_fd, hs]
  · -- What is left of the mappings is what there was.
    rw [hmalloc.mappings_free, hs]
    dsimp only
    rw [he] at hnew ⊢
    have hsplit : mappings (split (roundUp size) addr b) = [⟨addr, roundUp size, b.physAddr⟩] := by
      unfold split
      dsimp only
      rw [mappings_cons, if_neg ha]
      split <;> rfl
    have hb : mappings (pre ++ b :: post) = mappings pre ++ mappings post := by
      rw [mappings_append, mappings_cons, if_pos (show b.virtAddr = 0 from hf)]
    rw [hb] at hnew ⊢
    rw [mappings_append, mappings_append, hsplit, List.append_assoc, List.filter_append, List.singleton_append,
      List.filter_cons_of_neg (by simp), ← List.filter_append, List.filter_eq_self]
    intro m hmem
    simpa using hnew m hmem
  · rw [hs]
    exact List.erase_cons_head ..

theorem Inv.comm (h : Inv info s) (p q : Nat) : (s.free p).free q = (s.free q).free p := by
  refine clients_ext ?_ (((h.free p).free q).canonical ((h.free q).free p) ?_) ?_
  · rw [free_fd, free_fd, free_fd, free_fd]
  · rw [(h.free p).mappings_free, h.mappings_free, (h.free q).mappings_free, h.mappings_free, List.filter_filter,
      List.filter_filter]
    refine List.filter_congr fun m _ => ?_
    exact Bool.and_comm ..
  · exact List.erase_comm p q

/-- **No trace of the past.** In every run of `ve_malloc` and `ve_free` the chunk list is
determined by what is mapped; freeing what `ve_malloc` has just returned restores the
allocator, and two calls of `ve_free` may be exchanged. -/
theorem memchunks_canonical {info : VeInfo} (hN : 0 < info.reservedMemSize) {s : Clients}
    (h : (machine info).Via Mapped s) : Canonical info s where
  same _ h' hm := (via_inv hN h').canonical (via_inv hN h) hm
  undo _ _ _ hm hp := (via_inv hN h).undo hm hp
  comm p q := (via_inv hN h).comm p q

/-- With the first of two allocations freed. -/
theorem memchunks_canonical_sample :
    ∃ s, (machine ⟨0xc3000000, 0x10000⟩).exec ⟨⟨3, [⟨0x3000000, 0x10000, 0⟩]⟩, []⟩
        [.malloc (mapAt 0x10000) 5000 true, .malloc (mapAt 0x20000) 0x1000 false, .free 0x10000] = some s ∧
      s.outstanding = [0x20000] ∧ Canonical ⟨0xc3000000, 0x10000⟩ s := by
  refine ⟨_, rfl, by decide, memchunks_canonical (by decide) ?_⟩
  have h0 : (machine ⟨0xc3000000, 0x10000⟩).Via Mapped ⟨⟨3, [⟨0x3000000, 0x10000, 0⟩]⟩, []⟩ :=
    .start ⟨3, some 0x1000, rfl, rfl⟩
  have h1 := h0.next (mapAt_mapped (by decide : 0x10000 ≠ 0) (by decide) 5000 true) rfl
  have h2 := h1.next (mapAt_mapped (by decide : 0x20000 ≠ 0) (by decide) 0x1000 false) rfl
  exact h2.next (by trivial : Mapped _ (.free 0x10000)) rfl

end Camview.Ve
