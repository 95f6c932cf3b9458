/-
One call of `ve_malloc`. The search keeps the smallest chunk so far and stops at
an exact fit; what it knows of the chunks it has passed is `Best`, kept by each
of its steps, and at the end of the list this is the first least chunk that
fits.
-/
import Camview.Rounding
import Camview.VeInvariant

namespace Camview.Ve

/-- A free chunk of at least `size` bytes. -/
def Fits (size : Int32) (c : MemchunkT) : Prop := c.Free ∧ size ≤ c.size

instance (size : Int32) (c : MemchunkT) : Decidable (Fits size c) := inferInstanceAs (Decidable (_ ∧ _))

/-- Of the chunks `pre ++ b :: post` that fit, `b` is the first of least size. -/
structure BestFit (size : Int32) (pre : List MemchunkT) (b : MemchunkT) (post : List MemchunkT) : Prop where
  fits : Fits size b
  before : ∀ c ∈ pre, Fits size c → b.size < c.size
  after : ∀ c ∈ post, Fits size c → b.size ≤ c.size

/-- There is one best fit. -/
theorem BestFit.unique {size : Int32} {pre pre' post post' : List MemchunkT} {b b' : MemchunkT}
    (h : BestFit size pre b post) (h' : BestFit size pre' b' post') (he : pre ++ b :: post = pre' ++ b' :: post') :
    pre = pre' ∧ b = b' ∧ post = post' := by
  -- If one came before the other, it would be both larger and not larger.
  have apart {pre pre' post post' : List MemchunkT} {b b' : MemchunkT} (h : BestFit size pre b post)
      (h' : BestFit size pre' b' post') {mid : List MemchunkT} (hpre : pre' = pre ++ mid)
      (hmid : b :: post = mid ++ b' :: post') : mid = [] := by
    cases mid with
    | nil => rfl
    | cons c mid =>
      obtain ⟨rfl, rfl⟩ := List.cons.inj hmid
      have hlt := h'.before b (by simp [hpre]) h.fits
      have hle := h.after b' (by simp) h'.fits
      exact absurd hlt (Int32.not_lt.2 hle)
  rcases List.append_eq_append_iff.1 he with ⟨mid, hpre, hmid⟩ | ⟨mid, hpre, hmid⟩
  · obtain rfl := apart h h' hpre hmid
    obtain ⟨rfl, rfl⟩ := List.cons.inj hmid
    exact ⟨by rw [hpre, List.append_nil], rfl, rfl⟩
  · obtain rfl := apart h' h hpre hmid
    obtain ⟨rfl, rfl⟩ := List.cons.inj hmid
    exact ⟨by rw [hpre, List.append_nil], rfl, rfl⟩

/-! ## The search -/

/-- `best_chunk` after the chunks `cs`. -/
def Best (size : Int32) (cs : List MemchunkT) : Option (Nat × MemchunkT) → Prop
  | none => ∀ c ∈ cs, ¬ Fits size c
  | some (i, b) => ∃ pre post, cs = pre ++ b :: post ∧ i = pre.length ∧ BestFit size pre b post

variable {size : Int32} {cs ds : List MemchunkT} {c : MemchunkT} {best : Option (Nat × MemchunkT)}

/-- Chunks that do not fit better leave it as it is. -/
theorem Best.append {i : Nat} {b : MemchunkT} (h : Best size cs (some (i, b)))
    (hd : ∀ d ∈ ds, Fits size d → b.size ≤ d.size) : Best size (cs ++ ds) (some (i, b)) := by
  obtain ⟨pre, post, rfl, hi, hb⟩ := h
  refine ⟨pre, post ++ ds, by rw [List.append_assoc, List.cons_append], hi, hb.fits, hb.before, fun d hm hf => ?_⟩
  rcases List.mem_append.1 hm with hm | hm
  · exact hb.after d hm hf
  · exact hd d hm hf

theorem Best.skip (h : Best size cs best) (hc : ¬ Fits size c) : Best size (cs ++ [c]) best := by
  cases best with
  | none =>
    intro d hd
    rcases List.mem_append.1 hd with hd | hd
    · exact h d hd
    · rwa [List.mem_singleton.1 hd]
  | some ib =>
    refine Best.append h fun d hd hf => ?_
    rw [List.mem_singleton.1 hd] at hf
    exact absurd hf hc

theorem Best.better (h : Best size cs best) (hc : Fits size c) :
    Best size (cs ++ [c]) (better cs.length c best) := by
  cases best with
  | none => exact ⟨cs, [], rfl, rfl, hc, fun d hd hf => absurd hf (h d hd), fun d hd => absurd hd List.not_mem_nil⟩
  | some ib =>
    obtain ⟨i, b⟩ := ib
    unfold Ve.better
    dsimp only
    split
    · next hlt =>
      obtain ⟨pre, post, rfl, hi, hb⟩ := h
      refine ⟨_, [], rfl, rfl, hc, fun d hd hf => ?_, fun d hd => absurd hd List.not_mem_nil⟩
      rcases List.mem_append.1 hd with hd | hd
      · exact Int32.lt_trans hlt (hb.before d hd hf)
      · rcases List.mem_cons.1 hd with rfl | hd
        · exact hlt
        · exact Int32.lt_of_lt_of_le hlt (hb.after d hd hf)
    · next hge =>
      refine Best.append h fun d hd _ => ?_
      rw [List.mem_singleton.1 hd]
      exact Int32.not_lt.1 hge

/-- After a chunk that fits, `best_chunk` is not larger. -/
theorem better_some (i : Nat) (c : MemchunkT) (best : Option (Nat × MemchunkT)) :
    ∃ j b, better i c best = some (j, b) ∧ b.size ≤ c.size := by
  cases best with
  | none => exact ⟨i, c, rfl, Int32.le_refl _⟩
  | some ib =>
    obtain ⟨j, b⟩ := ib
    unfold better
    dsimp only
    split
    · exact ⟨i, c, rfl, Int32.le_refl _⟩
    · next h => exact ⟨j, b, rfl, Int32.not_lt.1 h⟩

theorem bestChunk_best (h : Best size cs best) : Best size (cs ++ ds) (bestChunk size ds cs.length best) := by
  induction ds generalizing cs best with
  | nil => rwa [List.append_nil]
  | cons c ds ih =>
    have hlen : (cs ++ [c]).length = cs.length + 1 := by simp
    rw [List.append_cons]
    unfold bestChunk
    split
    · next hc =>
      split
      · next he =>
        -- An exact fit: nothing that fits is smaller than `size`.
        obtain ⟨j, b, hb, hle⟩ := better_some cs.length c best
        have hbest := h.better hc
        rw [hb] at hbest ⊢
        exact hbest.append fun d _ hf => Int32.le_trans (he ▸ hle) hf.2
      · rw [← hlen]
        exact ih (h.better hc)
    · next hc =>
      rw [← hlen]
      exact ih (h.skip hc)

theorem bestChunk_spec (size : Int32) (cs : List MemchunkT) : Best size cs (bestChunk size cs 0 none) := by
  have h : Best size [] none := fun _ hc => absurd hc List.not_mem_nil
  exact bestChunk_best h

/-- There is a best fit as soon as a chunk fits. -/
theorem exists_bestFit (h : ∃ c ∈ cs, Fits size c) : ∃ pre b post, cs = pre ++ b :: post ∧ BestFit size pre b post := by
  have hs := bestChunk_spec size cs
  cases hb : bestChunk size cs 0 none with
  | none =>
    rw [hb] at hs
    obtain ⟨c, hc, hf⟩ := h
    exact absurd hf (hs c hc)
  | some ib =>
    rw [hb] at hs
    obtain ⟨pre, post, he, -, hbest⟩ := hs
    exact ⟨pre, ib.2, post, he, hbest⟩

theorem bestChunk_eq {pre post : List MemchunkT} {b : MemchunkT} (h : BestFit size pre b post) :
    bestChunk size (pre ++ b :: post) 0 none = some (pre.length, b) := by
  have hs := bestChunk_spec size (pre ++ b :: post)
  cases hb : bestChunk size (pre ++ b :: post) 0 none with
  | none =>
    rw [hb] at hs
    exact absurd h.fits (hs b (by simp))
  | some ib =>
    rw [hb] at hs
    obtain ⟨pre', post', he, hi, hbest⟩ := hs
    obtain ⟨rfl, rfl, -⟩ := h.unique hbest he
    rw [← hi]

/-! ## ve_malloc -/

/-- `roundUp` rounds up to whole pages. -/
theorem toInt_roundUp {size : Int32} (h : size.toInt + 4095 < 2 ^ 31) :
    (roundUp size).toInt = (size.toInt + 4095) / 4096 * 4096 := by
  have hsum : (size + pageSize - 1).toInt = size.toInt + 4095 := by
    have := size.le_toInt
    rw [show size + pageSize - 1 = size + 4095 by simp [pageSize, Int32.sub_eq_add_neg, Int32.add_assoc],
      Int32.toInt_add]
    exact Int.bmod_eq_of_le (by simp; omega) (by simp; omega)
  have h4 := toInt_and_not_mask (size + pageSize - 1).toBitVec (4095 : Int32).toBitVec (k := 12) (by decide) rfl
  rw [show (size + pageSize - 1).toBitVec.toInt = size.toInt + 4095 from hsum] at h4
  exact h4

/-- `mmap` maps nothing for an empty or a negative size. -/
def MapsNonempty (mmap : Mmap) : Prop := ∀ size write offset addr, mmap size write offset = some addr → 0 < size

/-- `mmap` succeeds on the chunk `b`, at `addr`. -/
def MapsAt (mmap : Mmap) (size : Int32) (write : Bool) (b : MemchunkT) (addr : Nat) : Prop :=
  addr ≠ 0 ∧ mmap size write (b.physAddr + pageOffset) = some addr

/-- What is left of the chunk `b` behind its first `size` bytes. -/
def remainder (size : Int32) (b : MemchunkT) : List MemchunkT :=
  if size < b.size then [⟨b.physAddr + size.toUInt32, b.size - size, 0⟩] else []

/-- `left_size`, when a mapping of `size` bytes succeeded. -/
theorem toInt_leftSize {size : Int32} {b : MemchunkT} (h0 : 0 < size) (hb : size ≤ b.size) :
    (b.size - size).toInt = b.size.toInt - size.toInt := by
  have := b.size.toInt_lt
  rw [Int32.lt_iff_toInt_lt, Int32.toInt_zero] at h0
  rw [Int32.le_iff_toInt_le] at hb
  rw [Int32.toInt_sub, Int.bmod_eq_of_le (by omega) (by omega)]

theorem split_eq {size : Int32} {addr : Nat} {b : MemchunkT} (h0 : 0 < size) (hb : size ≤ b.size) :
    split size addr b = { b with virtAddr := addr, size := size } :: remainder size b := by
  have hleft : 0 < b.size - size ↔ size < b.size := by
    rw [Int32.lt_iff_toInt_lt, Int32.lt_iff_toInt_lt, Int32.toInt_zero, toInt_leftSize h0 hb]
    omega
  simp only [split, remainder, hleft]

/-- A call of `ve_malloc` on an open device, `R` being its size in whole pages. It
returns a pointer exactly when some free chunk has `R` bytes and `mmap` succeeds
on the best fit. This chunk is then mapped, with `R` bytes, what is left of it
follows as a free chunk, and nothing else changes; on failure nothing changes. -/
structure MallocBestFit (mmap : Mmap) (R : Int32) (write : Bool) (ve : State) (r : Nat × State) : Prop where
  returns : r.1 ≠ 0 ↔ (∃ c ∈ ve.memchunks, Fits R c) ∧
    ∀ pre b post, ve.memchunks = pre ++ b :: post → BestFit R pre b post → ∃ addr, MapsAt mmap R write b addr
  chosen : (∃ c ∈ ve.memchunks, Fits R c) → ∃ pre b post, ve.memchunks = pre ++ b :: post ∧ BestFit R pre b post
  success : ∀ pre b post addr, ve.memchunks = pre ++ b :: post → BestFit R pre b post → MapsAt mmap R write b addr →
    r = (addr, { ve with memchunks := pre ++ { b with virtAddr := addr, size := R } :: (remainder R b ++ post) }) ∧
      0 < R ∧ (b.size - R).toInt = b.size.toInt - R.toInt
  failure : r.1 = 0 → r.2 = ve

theorem veMalloc_none {mmap : Mmap} {write : Bool} {ve : State}
    (h : ∀ c ∈ ve.memchunks, ¬ Fits (roundUp size) c) : veMalloc mmap size write ve = (0, ve) := by
  have hs := bestChunk_spec (roundUp size) ve.memchunks
  unfold veMalloc
  split
  · rfl
  dsimp only
  cases hb : bestChunk (roundUp size) ve.memchunks 0 none with
  | none => rfl
  | some ib =>
    rw [hb] at hs
    obtain ⟨pre, post, he, -, hbest⟩ := hs
    exact absurd hbest.fits (h ib.2 (by simp [he]))

/-- `ve_malloc` with the best fit at hand: `mmap` decides. -/
theorem veMalloc_bestFit (mmap : Mmap) (write : Bool) {ve : State} {pre post : List MemchunkT} {b : MemchunkT}
    (hfd : ve.fd ≠ -1) (he : ve.memchunks = pre ++ b :: post) (hb : BestFit (roundUp size) pre b post) :
    (¬ ∃ addr, MapsAt mmap (roundUp size) write b addr) ∧ veMalloc mmap size write ve = (0, ve) ∨
    ∃ addr, MapsAt mmap (roundUp size) write b addr ∧ veMalloc mmap size write ve =
      (addr, { ve with memchunks := pre ++ split (roundUp size) addr b ++ post }) := by
  have htake : ve.memchunks.take pre.length = pre := by rw [he, List.take_left]
  have hdrop : ve.memchunks.drop (pre.length + 1) = post := by
    rw [he, ← List.drop_drop, List.drop_left]
    rfl
  have hchunk : bestChunk (roundUp size) ve.memchunks 0 none = some (pre.length, b) := he ▸ bestChunk_eq hb
  unfold veMalloc MapsAt
  rw [if_neg hfd]
  dsimp only
  rw [hchunk]
  dsimp only
  rw [htake, hdrop]
  rcases hm : mmap (roundUp size) write (b.physAddr + pageOffset) with - | - | addr
  · exact .inl ⟨by simp, rfl⟩
  · exact .inl ⟨by simp, rfl⟩
  · exact .inr ⟨addr + 1, ⟨by simp, rfl⟩, rfl⟩

/-- **Best fit, or nothing.** For every chunk list and every size that can be
rounded up, on an open device. -/
theorem ve_malloc_best_fit {mmap : Mmap} (hm : MapsNonempty mmap) {size : Int32} (hs : size.toInt + 4095 < 2 ^ 31)
    (write : Bool) {ve : State} (hfd : ve.fd ≠ -1) :
    (roundUp size).toInt = (size.toInt + 4095) / 4096 * 4096 ∧
      MallocBestFit mmap (roundUp size) write ve (veMalloc mmap size write ve) := by
  refine ⟨toInt_roundUp hs, ?_, exists_bestFit, fun pre b post addr he hb ha => ?_, ?_⟩
  · constructor
    · intro hne
      by_cases hfit : ∃ c ∈ ve.memchunks, Fits (roundUp size) c
      · refine ⟨hfit, fun pre b post he hb => ?_⟩
        rcases veMalloc_bestFit mmap write hfd he hb with ⟨-, h⟩ | ⟨addr, ha, -⟩
        · exact absurd (by rw [h]) hne
        · exact ⟨addr, ha⟩
      · exact absurd (by rw [veMalloc_none fun c hc hf => hfit ⟨c, hc, hf⟩]) hne
    · rintro ⟨hfit, hmap⟩
      obtain ⟨pre, b, post, he, hb⟩ := exists_bestFit hfit
      rcases veMalloc_bestFit mmap write hfd he hb with ⟨hno, -⟩ | ⟨addr, ha, h⟩
      · exact absurd (hmap pre b post he hb) hno
      · rw [h]
        exact ha.1
  · have h0 : 0 < roundUp size := hm _ _ _ _ ha.2
    refine ⟨?_, h0, toInt_leftSize h0 hb.fits.2⟩
    rcases veMalloc_bestFit mmap write hfd he hb with ⟨hno, -⟩ | ⟨addr', ha', h⟩
    · exact absurd ⟨addr, ha⟩ hno
    · obtain rfl : addr' = addr := Option.some.inj (ha'.2.symm.trans ha.2)
      rw [h, split_eq h0 hb.fits.2, List.append_assoc, List.cons_append]
  · intro h0
    rcases veMalloc_cases mmap size write ve with h | ⟨_, _, _, addr, _, _, _, ha, _, h⟩
    · rw [h]
    · rw [h] at h0
      exact absurd h0 ha

/-- Chunks of 3 pages and of 2, both large enough for 5000 bytes. -/
theorem ve_malloc_best_fit_sample :
    veMalloc (mapAt 0x10000) 5000 true ⟨3, [⟨0x3000000, 0x3000, 0⟩, ⟨0x3003000, 0x2000, 0⟩]⟩ =
      (0x10000, ⟨3, [⟨0x3000000, 0x3000, 0⟩, ⟨0x3003000, 0x2000, 0x10000⟩]⟩) := by
  have hm : MapsNonempty (mapAt 0x10000) := fun size _ _ addr h => by
    by_contra h0
    simp [mapAt, h0] at h
  have h : MallocBestFit (mapAt 0x10000) (roundUp 5000) true ⟨3, [⟨0x3000000, 0x3000, 0⟩, ⟨0x3003000, 0x2000, 0⟩]⟩ _ :=
    (ve_malloc_best_fit hm (by decide) true (by decide)).2
  have hb : BestFit (roundUp 5000) [⟨0x3000000, 0x3000, 0⟩] ⟨0x3003000, 0x2000, 0⟩ [] :=
    ⟨by decide, by decide, fun c hc => absurd hc List.not_mem_nil⟩
  exact (h.success _ _ _ 0x10000 rfl hb ⟨by decide, rfl⟩).1

end Camview.Ve
