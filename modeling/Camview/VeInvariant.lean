/-
The chunk list of `ve.c` over whole runs of `ve_malloc` and `ve_free`. The list
tiles the reserved region with no free neighbours, and the chunks that are not
free are the allocations the clients hold (`Inv`, kept by both calls). From this
follow the guarantees of `ve_allocator`.

Addresses wrap at 32 bits and the region may: chunks are placed by their offset
in it, which does not.
-/
import Camview.Tiling
import Camview.Ve
import Mathlib.Algebra.Group.Nat.Defs
import Mathlib.Data.List.Perm.Basic

namespace Camview.Ve

/-- A `size` as a number of bytes. -/
def bytes (size : Int32) : Nat := size.toInt.toNat

/-- Chunks in a region from `p` on. -/
def layout (p : UInt32) : Layout MemchunkT UInt32 where
  addr := MemchunkT.physAddr
  len c := bytes c.size
  place x := p + UInt32.ofNat x

/-- The region's physical base. -/
def VeInfo.base (info : VeInfo) : UInt32 := info.reservedMem - pageOffset

/-- The addresses of a chunk. -/
def MemchunkT.range (c : MemchunkT) : Set UInt32 :=
  { a | ∃ k < bytes c.size, a = c.physAddr + UInt32.ofNat k }

/-- The addresses of the region. -/
def VeInfo.region (info : VeInfo) : Set UInt32 :=
  { a | ∃ k < bytes info.reservedMemSize, a = info.base + UInt32.ofNat k }

/-! ## Sizes -/

theorem bytes_lt (size : Int32) : bytes size < 2 ^ 31 := by
  have := size.toInt_lt
  unfold bytes
  omega

theorem bytes_pos {size : Int32} : 0 < bytes size ↔ 0 < size := by
  rw [Int32.lt_iff_toInt_lt, Int32.toInt_zero, bytes]
  omega

theorem bytes_add {m n : Int32} (hm : 0 < m) (hn : 0 < n) (h : bytes m + bytes n < 2 ^ 31) :
    bytes (m + n) = bytes m + bytes n := by
  rw [Int32.lt_iff_toInt_lt, Int32.toInt_zero] at hm hn
  unfold bytes at h ⊢
  rw [Int32.toInt_add, Int.bmod_eq_of_le (by omega) (by omega)]
  omega

theorem bytes_sub {m n : Int32} (hn : 0 < n) (h : n ≤ m) : bytes (m - n) = bytes m - bytes n := by
  have := m.toInt_lt
  rw [Int32.lt_iff_toInt_lt, Int32.toInt_zero] at hn
  rw [Int32.le_iff_toInt_le] at h
  unfold bytes
  rw [Int32.toInt_sub, Int.bmod_eq_of_le (by omega) (by omega)]
  omega

theorem eq_of_bytes {m n : Int32} (hm : 0 < m) (hn : 0 < n) (h : bytes m = bytes n) : m = n := by
  rw [Int32.lt_iff_toInt_lt, Int32.toInt_zero] at hm hn
  rw [← Int32.toInt_inj]
  unfold bytes at h
  omega

theorem toUInt32_eq_ofNat {size : Int32} (h : 0 < size) : size.toUInt32 = UInt32.ofNat (bytes size) := by
  rw [Int32.lt_iff_toInt_lt, Int32.toInt_zero] at h
  have ht : size.toBitVec.toInt = (size.toBitVec.toNat : Int) := by
    have h' : 0 < size.toBitVec.toInt := h
    have := size.toBitVec.isLt
    rw [BitVec.toInt_eq_toNat_cond] at h' ⊢
    split
    · rfl
    · next hc =>
      rw [if_neg hc] at h'
      omega
  have hb : bytes size = size.toBitVec.toNat := by
    show size.toBitVec.toInt.toNat = _
    rw [ht, Int.toNat_natCast]
  rw [hb]
  show UInt32.ofBitVec size.toBitVec = _
  exact UInt32.toBitVec_inj.1 (by simp)

/-- Offsets below `2 ^ 31` are different addresses. -/
theorem place_inj {p : UInt32} {i j : Nat} (hi : i < 2 ^ 31) (hj : j < 2 ^ 31)
    (h : (layout p).place i = (layout p).place j) : i = j := by
  have h' : UInt32.ofNat i = UInt32.ofNat j := by simpa [layout] using h
  have hn := congrArg UInt32.toNat h'
  rw [UInt32.toNat_ofNat', UInt32.toNat_ofNat', Nat.mod_eq_of_lt (by omega), Nat.mod_eq_of_lt (by omega)] at hn
  exact hn

theorem place_add (p : UInt32) (x n : Nat) :
    (layout p).place (x + n) = (layout p).place x + UInt32.ofNat n := by
  show p + UInt32.ofNat (x + n) = p + UInt32.ofNat x + UInt32.ofNat n
  rw [UInt32.ofNat_add, UInt32.add_assoc]

theorem MemchunkT.range_eq_span {p : UInt32} {c : MemchunkT} {x : Nat} (h : c.physAddr = (layout p).place x) :
    c.range = (layout p).span x (bytes c.size) := by
  ext a
  constructor
  · rintro ⟨k, hk, rfl⟩
    exact ⟨x + k, by omega, by omega, by rw [place_add, h]⟩
  · rintro ⟨k, hxk, hk, rfl⟩
    refine ⟨k - x, by omega, ?_⟩
    rw [h, ← place_add]
    congr 1
    omega

/-! ## Tilings -/

variable {p : UInt32} {cs : List MemchunkT} {a b : Nat}

/-- `ve_malloc` splits a chunk in place. -/
theorem tiles_split {size : Int32} {addr x y : Nat} {c : MemchunkT} (h0 : 0 < size) (hs : size ≤ c.size)
    (h : (layout p).Tiles x [c] y) : (layout p).Tiles x (split size addr c) y := by
  obtain ⟨hc, hpos, rfl⟩ := h
  have hsub := bytes_sub h0 hs
  have hle : bytes size ≤ bytes c.size := by
    rw [Int32.le_iff_toInt_le] at hs
    unfold bytes
    omega
  unfold split
  dsimp only
  split
  · next hl =>
    refine ⟨hc, bytes_pos.2 h0, ?_, bytes_pos.2 hl, ?_⟩
    · show c.physAddr + size.toUInt32 = (layout p).place (x + bytes size)
      rw [toUInt32_eq_ofNat h0, place_add, ← hc]
      rfl
    · show x + bytes size + bytes (c.size - size) = x + bytes c.size
      omega
  · next hl =>
    have := mt bytes_pos.1 hl
    refine ⟨hc, bytes_pos.2 h0, ?_⟩
    show x + bytes size = x + bytes c.size
    omega

/-- The first loop of `ve_free` moves no chunk. -/
theorem tiles_clearFirst (ptr : Nat) (h : (layout p).Tiles a cs b) : (layout p).Tiles a (clearFirst ptr cs) b := by
  induction cs generalizing a with
  | nil => exact h
  | cons c cs ih =>
    unfold clearFirst
    split
    · exact h
    · exact ⟨h.1, h.2.1, ih h.2.2⟩

/-- The second loop of `ve_free` joins neighbours. -/
theorem tiles_coalesce {c : MemchunkT} (hb : b < 2 ^ 31) (h : (layout p).Tiles a (c :: cs) b) :
    (layout p).Tiles a (coalesce c cs) b := by
  induction cs generalizing a c with
  | nil => exact h
  | cons n cs ih =>
    obtain ⟨hc, hpc, hn, hpn, ht⟩ := h
    unfold coalesce
    split
    · have hle : a + bytes c.size + bytes n.size ≤ b := ht.le
      have hadd := bytes_add (bytes_pos.1 hpc) (bytes_pos.1 hpn) (by omega)
      refine ih ⟨hc, ?_, ?_⟩
      · show 0 < bytes (c.size + n.size)
        rw [hadd]
        exact Nat.add_pos_left hpc _
      · show (layout p).Tiles (a + bytes (c.size + n.size)) cs b
        rw [hadd, ← Nat.add_assoc]
        exact ht
    · exact ⟨hc, hpc, ih ⟨hn, hpn, ht⟩⟩

theorem tiles_coalesceAll (hb : b < 2 ^ 31) (h : (layout p).Tiles a cs b) :
    (layout p).Tiles a (coalesceAll cs) b := by
  cases cs with
  | nil => exact h
  | cons c cs => exact tiles_coalesce hb h

/-! ## Neighbours -/

/-- A free chunk has no free neighbour, so the chunks that take its place may
have a free one at the end. -/
theorem Coalesced.split {pre post : List MemchunkT} {c : MemchunkT} {size : Int32} {addr : Nat}
    (h : Coalesced (pre ++ c :: post)) (hc : c.Free) (ha : addr ≠ 0) :
    Coalesced (pre ++ split size addr c ++ post) := by
  obtain ⟨hpre, hcpost, -⟩ := List.isChain_append.1 h
  obtain ⟨hnext, hpost⟩ := List.isChain_cons.1 hcpost
  rw [List.append_assoc]
  refine List.isChain_append.2 ⟨hpre, ?_, fun x _ y hy => ?_⟩
  · unfold Ve.split
    dsimp only
    split
    · refine List.isChain_cons_cons.2 ⟨fun hf => ha hf.1, List.isChain_cons.2 ⟨fun y hy hf => ?_, hpost⟩⟩
      exact hnext y hy ⟨hc, hf.2⟩
    · exact List.isChain_cons.2 ⟨fun y _ hf => ha hf.1, hpost⟩
  · -- The first of the new chunks is mapped.
    rw [show y = { c with virtAddr := addr, size := size } by simpa [Ve.split, eq_comm] using hy]
    exact fun hf => ha hf.2

theorem lives_split {pre post : List MemchunkT} {c : MemchunkT} {size : Int32} {addr : Nat} (hc : c.Free)
    (ha : addr ≠ 0) : (lives (pre ++ split size addr c ++ post)).Perm (addr :: lives (pre ++ c :: post)) := by
  have hs : lives (split size addr c) = [addr] := by
    unfold split
    dsimp only
    rw [lives_cons, if_neg ha]
    split <;> rfl
  rw [lives_append, lives_append, lives_append, hs, lives_cons, if_pos (show c.virtAddr = 0 from hc),
    List.append_assoc]
  exact List.perm_middle

/-! ## The invariant -/

/-- The list tiles the region, no two neighbours are free, and the mapped chunks
are what the clients hold. -/
structure Inv (info : VeInfo) (s : Clients) : Prop where
  opened : s.ve.fd ≠ -1
  tiles : (layout info.base).Tiles 0 s.ve.memchunks (bytes info.reservedMemSize)
  coalesced : Coalesced s.ve.memchunks
  live : s.outstanding.Perm (lives s.ve.memchunks)
  nodup : s.outstanding.Nodup

theorem Inv.nonNull {info : VeInfo} {s : Clients} (h : Inv info s) : 0 ∉ s.outstanding := fun h0 =>
  (mem_lives.1 (h.live.subset h0)).1 rfl

/-- What a successful `ve_open` leaves. -/
theorem veOpen_eq_true {fd : Int32} {info : VeInfo} {regs : Option Nat} {ve ve' : State}
    (h : veOpen fd (some info) regs ve = (true, ve')) :
    fd ≠ -1 ∧ ve' = ⟨fd, setFirstMemchunk info ve.memchunks⟩ := by
  unfold veOpen at h
  split at h
  · cases h
  split at h
  · cases h
  next hfd =>
  cases regs with
  | none => cases h
  | some r =>
    cases h
    exact ⟨hfd, rfl⟩

theorem inv_init {info : VeInfo} (hN : 0 < info.reservedMemSize) {s : Clients} (h : (machine info).init s) :
    Inv info s := by
  obtain ⟨fd, regs, ho, hs⟩ := h
  obtain ⟨hfd, hve⟩ := veOpen_eq_true ho
  obtain ⟨ve, out⟩ := s
  obtain rfl : out = [] := hs
  obtain rfl : ve = _ := hve
  refine ⟨hfd, ⟨?_, bytes_pos.2 hN, ?_⟩, .singleton _, .refl _, .nil⟩
  · show info.base = info.base + 0
    exact (UInt32.add_zero _).symm
  · exact Nat.zero_add _

theorem Inv.malloc {info : VeInfo} {s : Clients} (h : Inv info s) {mmap : Mmap} {size : Int32} {write : Bool}
    (hm : Mapped s (.malloc mmap size write)) : Inv info (s.malloc mmap size write) := by
  unfold Clients.malloc
  rcases veMalloc_cases mmap size write s.ve with e | ⟨pre, c, post, addr, he, hf, hle, ha, hmap, e⟩
  · rw [e]
    exact h
  · obtain ⟨h0, -, hnew⟩ := hm _ _ _ _ hmap
    rw [e]
    dsimp only
    rw [if_neg ha]
    have ht := h.tiles
    have hco := h.coalesced
    have hl := h.live
    rw [he] at ht hco hl
    refine ⟨h.opened, ?_, hco.split hf ha, ?_, List.nodup_cons.2 ⟨hnew, h.nodup⟩⟩
    · rw [List.append_cons] at ht
      exact ht.replace fun x y hx => tiles_split h0 hle hx
    · exact (hl.cons addr).trans (lives_split hf ha).symm

theorem Inv.free {info : VeInfo} {s : Clients} (h : Inv info s) (ptr : Nat) : Inv info (s.free ptr) := by
  unfold Clients.free veFree
  split
  · next h0 =>
    obtain rfl : ptr = 0 := h0.resolve_left h.opened
    rw [List.erase_of_not_mem h.nonNull]
    exact h
  · next h0 =>
    refine ⟨h.opened, tiles_coalesceAll (bytes_lt _) (tiles_clearFirst ptr h.tiles), coalesced_coalesceAll _, ?_,
      h.nodup.erase ptr⟩
    dsimp only
    rw [lives_coalesceAll, lives_clearFirst fun e => h0 (.inr e)]
    exact h.live.erase ptr

theorem Inv.step {info : VeInfo} {s s' : Clients} {a : Call} (h : Inv info s) (hm : Mapped s a)
    (hs : step s a = some s') : Inv info s' := by
  cases a with
  | malloc mmap size write =>
    cases hs
    exact h.malloc hm
  | free ptr =>
    cases hs
    exact h.free ptr

theorem via_inv {info : VeInfo} (hN : 0 < info.reservedMemSize) {s : Clients} (h : (machine info).Via Mapped s) :
    Inv info s :=
  h.invariant (fun _ hi => inv_init hN hi) fun _ _ _ _ hi hm hs => hi.step hm hs

/-! ## What the clients may rely on -/

/-- The chunks tile the region without gap or overlap, in ascending order of
their offsets, and none is empty; no two neighbours are free; the allocations
held are the mapped chunks, once each; freeing another pointer does nothing; and
with nothing held the region is one free chunk. -/
structure Guarantees (info : VeInfo) (s : Clients) : Prop where
  tiles : (layout info.base).Tiles 0 s.ve.memchunks (bytes info.reservedMemSize)
  next : s.ve.memchunks.IsChain fun c d => d.physAddr = c.physAddr + c.size.toUInt32
  ascending : info.base.toNat + bytes info.reservedMemSize ≤ 2 ^ 32 →
    s.ve.memchunks.Pairwise fun c d => c.physAddr.toNat + bytes c.size ≤ d.physAddr.toNat
  positive : ∀ c ∈ s.ve.memchunks, 0 < c.size
  coalesced : Coalesced s.ve.memchunks
  held : s.outstanding.Perm (lives s.ve.memchunks)
  once : s.outstanding.Nodup
  disjoint : s.ve.memchunks.Pairwise fun c d => ∀ a ∈ c.range, a ∉ d.range
  inside : ∀ c ∈ s.ve.memchunks, c.range ⊆ info.region
  freeOther : ∀ ptr ∉ s.outstanding, veFree ptr s.ve = s.ve
  allFreed : s.outstanding = [] → s.ve.memchunks = [⟨info.base, info.reservedMemSize, 0⟩]

section Inv

variable {info : VeInfo} {s : Clients}

theorem Inv.positive (h : Inv info s) {c : MemchunkT} (hc : c ∈ s.ve.memchunks) : 0 < c.size := by
  obtain ⟨pre, post, he⟩ := List.append_of_mem hc
  have ht := h.tiles
  rw [he] at ht
  obtain ⟨_, -, htail⟩ := Layout.tiles_append.1 ht
  exact bytes_pos.1 htail.2.1

theorem Inv.next (h : Inv info s) : s.ve.memchunks.IsChain fun c d => d.physAddr = c.physAddr + c.size.toUInt32 := by
  refine List.IsChain.imp_of_mem_imp (fun c d hc _ ⟨x, hx, hd, _⟩ => ?_) h.tiles.isChain
  show (layout info.base).addr d = (layout info.base).addr c + c.size.toUInt32
  rw [hd, hx, toUInt32_eq_ofNat (h.positive hc)]
  exact place_add _ _ _

/-- In a region that does not wrap, an offset's address is the base and the offset. -/
theorem toNat_place {p : UInt32} {x : Nat} (h : p.toNat + x < 2 ^ 32) : ((layout p).place x).toNat = p.toNat + x := by
  show (p + UInt32.ofNat x).toNat = p.toNat + x
  rw [UInt32.toNat_add, UInt32.toNat_ofNat', Nat.mod_eq_of_lt (by omega : x < 2 ^ 32), Nat.mod_eq_of_lt h]

theorem Inv.ascending (h : Inv info s) (hw : info.base.toNat + bytes info.reservedMemSize ≤ 2 ^ 32) :
    s.ve.memchunks.Pairwise fun c d => c.physAddr.toNat + bytes c.size ≤ d.physAddr.toNat := by
  refine h.tiles.pairwise.imp_of_mem ?_
  rintro c d hc hd ⟨x, y, hx, hy, -, hxy, hyb⟩
  have hpos := bytes_pos.2 (h.positive hd)
  have hlc : (layout info.base).len c = bytes c.size := rfl
  have hld : (layout info.base).len d = bytes d.size := rfl
  have ec : c.physAddr.toNat = info.base.toNat + x := by
    rw [← toNat_place (by omega)]
    exact congrArg UInt32.toNat hx
  have ed : d.physAddr.toNat = info.base.toNat + y := by
    rw [← toNat_place (by omega)]
    exact congrArg UInt32.toNat hy
  omega

theorem Inv.disjoint (h : Inv info s) : s.ve.memchunks.Pairwise fun c d => ∀ a ∈ c.range, a ∉ d.range := by
  refine h.tiles.pairwise.imp ?_
  rintro c d ⟨x, y, hx, hy, -, hxy, hyb⟩ a ha
  rw [MemchunkT.range_eq_span hx] at ha
  rw [MemchunkT.range_eq_span hy]
  have hN := bytes_lt info.reservedMemSize
  exact Layout.span_disjoint (fun i j hi hj => place_inj (by omega) (by omega)) hxy hyb ha

theorem Inv.inside (h : Inv info s) {c : MemchunkT} (hc : c ∈ s.ve.memchunks) : c.range ⊆ info.region := by
  obtain ⟨x, hx, -, hxb⟩ := h.tiles.mem hc
  rw [MemchunkT.range_eq_span hx]
  rintro a ⟨k, -, hk, rfl⟩
  have hlen : (layout info.base).len c = bytes c.size := rfl
  exact ⟨k, by omega, rfl⟩

theorem Inv.freeOther (h : Inv info s) {ptr : Nat} (hp : ptr ∉ s.outstanding) : veFree ptr s.ve = s.ve := by
  unfold veFree
  split
  · rfl
  · next h0 =>
    have hn : ∀ c ∈ s.ve.memchunks, c.virtAddr ≠ ptr := fun c hc e =>
      hp (h.live.symm.subset (mem_lives.2 ⟨fun e' => h0 (.inr e'), c, hc, e⟩))
    rw [clearFirst_of_notMem hn, coalesceAll_eq h.coalesced]

theorem Inv.allFreed (h : Inv info s) (hN : 0 < info.reservedMemSize) (ho : s.outstanding = []) :
    s.ve.memchunks = [⟨info.base, info.reservedMemSize, 0⟩] := by
  have hl : lives s.ve.memchunks = [] := (ho ▸ h.live).symm.eq_nil
  have ht := h.tiles
  have hco := h.coalesced
  cases he : s.ve.memchunks with
  | nil =>
    rw [he] at ht
    exact absurd (bytes_pos.2 hN) (Nat.not_lt.2 (Nat.le_of_eq ht.symm))
  | cons c cs =>
    rw [he] at ht hco hl
    have hfree := lives_eq_nil.1 hl
    obtain rfl : cs = [] := eq_singleton_of_isChain hco hfree
    obtain ⟨hc, hpos, hsum⟩ := ht
    have hv : c.virtAddr = 0 := hfree c (by simp)
    have ha : c.physAddr = info.base := by
      show (layout info.base).addr c = info.base
      rw [hc]
      exact UInt32.add_zero _
    have hs : c.size = info.reservedMemSize := by
      have hb : 0 + bytes c.size = bytes info.reservedMemSize := hsum
      rw [Nat.zero_add] at hb
      exact eq_of_bytes (bytes_pos.1 hpos) hN hb
    rw [← ha, ← hs, ← hv]

end Inv

/-- **The allocator.** After a successful `ve_open` of a region that is not
empty, every sequence of `ve_malloc` and `ve_free`, with any sizes and any
pointers, keeps the guarantees. -/
theorem ve_allocator (info : VeInfo) (hN : 0 < info.reservedMemSize) {s : Clients}
    (h : (machine info).Via Mapped s) : Guarantees info s := by
  have hi := via_inv hN h
  exact ⟨hi.tiles, hi.next, hi.ascending, fun _ => hi.positive, hi.coalesced, hi.live, hi.nodup, hi.disjoint,
    fun _ => hi.inside, fun _ => hi.freeOther, hi.allFreed hN⟩

/-- Maps at `addr` what is not empty. -/
def mapAt (addr : Nat) : Mmap := fun size _ _ => if 0 < size then some addr else none

theorem mapAt_mapped {addr : Nat} {s : Clients} (h0 : addr ≠ 0) (h : addr ∉ s.outstanding) (size : Int32)
    (write : Bool) : Mapped s (.malloc (mapAt addr) size write) := by
  intro size' _ _ a ha
  obtain ⟨hs, rfl⟩ : 0 < size' ∧ addr = a := by simpa [mapAt] using ha
  exact ⟨hs, h0, h⟩

/-- Two allocations, the first of them freed. -/
theorem ve_allocator_sample :
    ∃ s, (machine ⟨0xc3000000, 0x10000⟩).exec ⟨⟨3, [⟨0x3000000, 0x10000, 0⟩]⟩, []⟩
        [.malloc (mapAt 0x10000) 5000 true, .malloc (mapAt 0x20000) 0x1000 false, .free 0x10000] = some s ∧
      s.ve.memchunks = [⟨0x3000000, 0x2000, 0⟩, ⟨0x3002000, 0x1000, 0x20000⟩, ⟨0x3003000, 0xd000, 0⟩] ∧
      Guarantees ⟨0xc3000000, 0x10000⟩ s := by
  refine ⟨_, rfl, by decide, ve_allocator ⟨0xc3000000, 0x10000⟩ (by decide) ?_⟩
  have h0 : (machine ⟨0xc3000000, 0x10000⟩).Via Mapped ⟨⟨3, [⟨0x3000000, 0x10000, 0⟩]⟩, []⟩ :=
    .start ⟨3, some 0x1000, rfl, rfl⟩
  have h1 := h0.next (mapAt_mapped (by decide : 0x10000 ≠ 0) (by decide) 5000 true) rfl
  have h2 := h1.next (mapAt_mapped (by decide : 0x20000 ≠ 0) (by decide) 0x1000 false) rfl
  exact h2.next (by trivial : Mapped _ (.free 0x10000)) rfl

end Camview.Ve
