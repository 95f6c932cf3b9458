/-
`parse_jpeg` ends. An iteration of `while (!sos)` leaves the position beyond its own,
at zero-length segments as well: the marker itself is never read again. So do those
of the inner loops, or they count to what a byte holds.

`parse_jpeg_ends` is about all paths of the parser: a read outside the buffer may yield
any byte, and another one the next time.
-/
import Camview.Jpeg
import Camview.Paths
import Mathlib.Algebra.Group.Nat.Defs

namespace Camview

open Reader

/-! ## The inner loops -/

section Inner

variable {n : Nat} {jpeg : JpegT}

theorem path_be16 {pos : Nat} {v : UInt16} (h : Path (be16 pos) n v) : n = 2 := by
  unfold be16 at h
  rw [path_byte_bind] at h
  obtain ⟨hi, m, h, rfl⟩ := h
  rw [path_byte_bind] at h
  obtain ⟨lo, k, h, rfl⟩ := h
  rw [(path_pure.1 h).1]

/-- Two reads for a table of 65 bytes. -/
theorem path_processDqt {base : Nat} {size : Int} {pos : Nat} {r : Option JpegT}
    (h : Path (processDqt base size pos jpeg) n r) : n ≤ 2 * (size - pos).toNat := by
  induction pos, jpeg using processDqt.induct base size generalizing n with
  | case1 pos jpeg hpos ih =>
    rw [processDqt, if_pos hpos, path_byte_bind] at h
    obtain ⟨pq, m, h, rfl⟩ := h
    split at h
    · rw [(path_pure.1 h).1]
      omega
    · rw [path_byte_bind] at h
      obtain ⟨tq, k, h, rfl⟩ := h
      have := ih tq h
      omega
  | case2 pos jpeg hpos =>
    rw [processDqt, if_neg hpos] at h
    rw [(path_pure.1 h).1]
    exact Nat.zero_le _

theorem path_sumNum {pos count sum : Nat} (h : Path (sumNum pos count) n sum) : n = count := by
  induction count generalizing n sum with
  | zero => exact (path_pure.1 h).1
  | succ count ih =>
    rw [sumNum, path_bind] at h
    obtain ⟨m, s, k, hs, h, rfl⟩ := h
    rw [path_byte_bind] at h
    obtain ⟨num, j, h, rfl⟩ := h
    rw [ih hs, (path_pure.1 h).1]

/-- 18 reads for a table of at least 17 bytes, whatever its counts are. -/
theorem path_processDht {base : Nat} {size : Int} {pos : Nat} {r : JpegT}
    (h : Path (processDht base size pos jpeg) n r) : n ≤ 18 * (size - pos).toNat := by
  induction pos, jpeg using processDht.induct base size generalizing n with
  | case1 pos jpeg hpos ih =>
    rw [processDht, if_pos hpos, path_byte_bind] at h
    obtain ⟨th, m, h, rfl⟩ := h
    rw [path_byte_bind] at h
    obtain ⟨tc, k, h, rfl⟩ := h
    dsimp only at h
    rw [path_bind] at h
    obtain ⟨i, sum, j, hsum, h, rfl⟩ := h
    have := ih th tc sum h
    have := path_sumNum hsum
    omega
  | case2 pos jpeg hpos =>
    rw [processDht, if_neg hpos] at h
    rw [(path_pure.1 h).1]
    exact Nat.zero_le _

/-- A loop that counts to a byte which it reads again each time, with `c` reads an
iteration: it ends, even if the byte is another one each time. -/
theorem path_counted {α σ : Type} {f : Nat → σ → Reader α} {c : Nat}
    (step : ∀ {i n : Nat} {s : σ} {r : α}, Path (f i s) n r →
      n ≤ 1 ∨ i < 255 ∧ (n ≤ c + 1 ∨ ∃ m s', Path (f (i + 1) s') m r ∧ n = m + c))
    {i : Nat} {s : σ} {r : α} (h : Path (f i s) n r) : n ≤ c * (255 - i) + 1 := by
  induction hleft : 255 - i generalizing i s n with
  | zero =>
    rcases step h with hn | ⟨hi, -⟩
    · omega
    · omega
  | succ left ih =>
    rw [Nat.mul_succ]
    rcases step h with hn | ⟨-, hn | ⟨m, s', hm, rfl⟩⟩
    · omega
    · omega
    · have := ih hm (by omega)
      omega

theorem path_frameComps {pos i : Nat} {r : Option JpegT} (h : Path (frameComps pos i jpeg) n r) :
    n ≤ 5 * (255 - i) + 1 := by
  refine path_counted ?_ h
  intro i n jpeg r h
  rw [frameComps, path_byte_bind] at h
  obtain ⟨count, m, h, rfl⟩ := h
  have := count.toNat_lt
  split at h
  · rw [path_byte_bind] at h
    obtain ⟨id, m, h, rfl⟩ := h
    split at h
    · rw [path_byte_bind] at h
      obtain ⟨sampH, m, h, rfl⟩ := h
      rw [path_byte_bind] at h
      obtain ⟨sampV, m, h, rfl⟩ := h
      rw [path_byte_bind] at h
      obtain ⟨qt, m, h, rfl⟩ := h
      exact .inr ⟨by omega, .inr ⟨m, _, h, by omega⟩⟩
    · rw [(path_pure.1 h).1]
      exact .inr ⟨by omega, .inl (by omega)⟩
  · rw [(path_pure.1 h).1]
    exact .inl (by omega)

theorem path_scanComps {pos i : Nat} {r : Option JpegT} (h : Path (scanComps pos i jpeg) n r) :
    n ≤ 4 * (255 - i) + 1 := by
  refine path_counted ?_ h
  intro i n jpeg r h
  rw [scanComps, path_byte_bind] at h
  obtain ⟨count, m, h, rfl⟩ := h
  have := count.toNat_lt
  split at h
  · rw [path_byte_bind] at h
    obtain ⟨id, m, h, rfl⟩ := h
    split at h
    · rw [path_byte_bind] at h
      obtain ⟨htDc, m, h, rfl⟩ := h
      rw [path_byte_bind] at h
      obtain ⟨htAc, m, h, rfl⟩ := h
      exact .inr ⟨by omega, .inr ⟨m, _, h, by omega⟩⟩
    · rw [(path_pure.1 h).1]
      exact .inr ⟨by omega, .inl (by omega)⟩
  · rw [(path_pure.1 h).1]
    exact .inl (by omega)

theorem path_bind_pure {α β : Type} {r : Reader α} {f : α → β} {b : β} (h : Path (r >>= fun a => pure (f a)) n b) :
    ∃ a, Path r n a ∧ b = f a := by
  obtain ⟨m, a, k, hr, hp, rfl⟩ := path_bind.1 h
  obtain ⟨rfl, rfl⟩ := path_pure.1 hp
  exact ⟨a, hr, rfl⟩

/-- The reads of the switch, most of them for Huffman tables or components. -/
theorem path_switchMarker {marker : UInt8} {pos : Nat} {segLen : UInt16} {r : Option (JpegT × Bool)}
    (h : Path (switchMarker marker pos segLen jpeg) n r) : n ≤ 1281 + 18 * segLen.toNat := by
  by_cases hk : marker ∈ knownMarkers
  · simp only [knownMarkers, List.mem_cons, List.not_mem_nil, or_false] at hk
    rcases hk with e | e | e | e | e
    · rw [e, switchMarker_dqt] at h
      obtain ⟨a, h, -⟩ := path_bind_pure h
      have := path_processDqt h
      omega
    · rw [e, switchMarker_dht] at h
      obtain ⟨a, h, -⟩ := path_bind_pure h
      have := path_processDht h
      omega
    · rw [e, switchMarker_sof0, path_byte_bind] at h
      obtain ⟨bits, m, h, rfl⟩ := h
      rw [path_bind] at h
      obtain ⟨nw, width, m, hw, h, rfl⟩ := h
      rw [path_bind] at h
      obtain ⟨nh, height, m, hh, h, rfl⟩ := h
      obtain ⟨a, h, -⟩ := path_bind_pure h
      have := path_frameComps h
      have := path_be16 hw
      have := path_be16 hh
      omega
    · rw [e, switchMarker_dri] at h
      obtain ⟨a, h, -⟩ := path_bind_pure h
      have := path_be16 h
      omega
    · rw [e, switchMarker_sos] at h
      obtain ⟨a, h, -⟩ := path_bind_pure h
      have := path_scanComps h
      omega
  · rw [switchMarker_other _ _ _ hk] at h
    split at h
    · rw [(path_pure.1 h).1]
      exact Nat.zero_le _
    · rw [(path_pure.1 h).1]
      exact Nat.zero_le _

/-- One read for a fill byte, and one for what ends them, inside the buffer. -/
theorem path_skipFill {len p : Nat} {q : { q // p ≤ q }} (h : Path (skipFill len p) n q) :
    n ≤ q.1 - p + 1 ∧ n ≤ len - p := by
  induction p using skipFill.induct len generalizing n with
  | case1 p hp ih =>
    rw [skipFill, if_pos hp, path_byte_bind] at h
    obtain ⟨b, m, h, rfl⟩ := h
    split at h
    · obtain ⟨q', hq', he⟩ := path_bind_pure h
      have hval : q.1 = q'.1 := congrArg Subtype.val he
      have := ih hq'
      have := q'.2
      omega
    · rw [(path_pure.1 h).1]
      omega
  | case2 p hp =>
    rw [skipFill, if_neg hp] at h
    rw [(path_pure.1 h).1]
    omega

end Inner

/-! ## The outer loop -/

/-- What an iteration of `while (!sos)` comes to: `return 0`, or a position with `sos`
set or not. -/
inductive Iteration
  | fail
  | sos (pos : Nat) (jpeg : JpegT)
  | next (pos : Nat) (jpeg : JpegT)

/-- One iteration, from `pos` on. -/
def iteration (len pos : Nat) (jpeg : JpegT) : Reader Iteration := do
  let q ← skipFill len pos
  if q.1 + 2 < len then
    let marker ← byte q.1
    let segLen ← be16 (q.1 + 1)
    if q.1 + 1 + segLen.toNat < len then
      let r ← switchMarker marker (q.1 + 1) segLen jpeg
      match r with
      | none => pure .fail
      | some (jpeg, true) => pure (.sos (q.1 + 1 + segLen.toNat) jpeg)
      | some (jpeg, false) => pure (.next (q.1 + 1 + segLen.toNat) jpeg)
    else pure .fail
  else pure .fail

theorem parseSegments_eq (len pos : Nat) (jpeg : JpegT) :
    parseSegments len pos jpeg = iteration len pos jpeg >>= fun
      | .fail => pure none
      | .sos pos jpeg => pure (some (jpeg.setData len pos))
      | .next pos jpeg => parseSegments len pos jpeg := by
  rw [parseSegments, iteration, bind_assoc]
  congr 1
  funext q
  split
  · rw [bind_assoc]
    congr 1
    funext marker
    rw [bind_assoc]
    congr 1
    funext segLen
    split
    · rw [bind_assoc]
      congr 1
      funext r
      rcases r with - | ⟨jpeg, sos⟩
      · rfl
      · cases sos with
        | true => rfl
        | false => rfl
    · rfl
  · rfl

/-- The position moves on, by the marker at least, and stays inside the buffer. -/
theorem returns_iteration {len pos : Nat} {jpeg : JpegT} {it : Iteration} (h : Returns (iteration len pos jpeg) it) :
    ∀ pos' jpeg', it = .sos pos' jpeg' ∨ it = .next pos' jpeg' → pos < pos' ∧ pos' < len := by
  intro pos' jpeg' hit
  rw [iteration, returns_bind] at h
  obtain ⟨q, -, h⟩ := h
  have hle := q.2
  split at h
  · rw [returns_bind] at h
    obtain ⟨marker, -, h⟩ := h
    rw [returns_bind] at h
    obtain ⟨segLen, -, h⟩ := h
    split at h
    · next hpayload =>
      rw [returns_bind] at h
      obtain ⟨r, -, h⟩ := h
      split at h
      · rw [returns_pure.1 h] at hit
        exact absurd hit (by simp)
      · rw [returns_pure.1 h] at hit
        simp only [Iteration.sos.injEq, reduceCtorEq, or_false] at hit
        omega
      · rw [returns_pure.1 h] at hit
        simp only [Iteration.next.injEq, reduceCtorEq, false_or] at hit
        omega
    · rw [returns_pure.1 h] at hit
      exact absurd hit (by simp)
  · rw [returns_pure.1 h] at hit
    exact absurd hit (by simp)

/-- The reads of an iteration, from `pos` to the position it comes to. -/
theorem path_iteration {len pos n : Nat} {jpeg : JpegT} {it : Iteration} (h : Path (iteration len pos jpeg) n it) :
    n ≤ 1285 * (len - pos) ∧ ∀ pos' jpeg', it = .next pos' jpeg' → n ≤ 1285 * (pos' - pos) := by
  rw [iteration, path_bind] at h
  obtain ⟨m, q, k, hskip, h, rfl⟩ := h
  obtain ⟨hm, hm'⟩ := path_skipFill hskip
  have hle := q.2
  split at h
  · rw [path_byte_bind] at h
    obtain ⟨marker, k, h, rfl⟩ := h
    rw [path_bind] at h
    obtain ⟨i, segLen, k, hlength, h, rfl⟩ := h
    have hi := path_be16 hlength
    split at h
    · rw [path_bind] at h
      obtain ⟨j, r, k, hswitch, h, rfl⟩ := h
      have hj := path_switchMarker hswitch
      split at h
      all_goals
        obtain ⟨rfl, rfl⟩ := path_pure.1 h
        refine ⟨by omega, ?_⟩
        intro pos' jpeg' hit
        cases hit
      omega
    · obtain ⟨rfl, rfl⟩ := path_pure.1 h
      refine ⟨by omega, ?_⟩
      intro pos' jpeg' hit
      cases hit
  · obtain ⟨rfl, rfl⟩ := path_pure.1 h
    refine ⟨by omega, ?_⟩
    intro pos' jpeg' hit
    cases hit

/-- The reads of the loop, with what is left of the buffer as the measure. -/
theorem path_parseSegments {len pos n : Nat} {jpeg : JpegT} {r : Option JpegT}
    (h : Path (parseSegments len pos jpeg) n r) : n ≤ 1285 * (len - pos) := by
  induction hmeasure : len - pos using Nat.strongRecOn generalizing pos jpeg n with
  | ind left ih =>
    rw [parseSegments_eq, path_bind] at h
    obtain ⟨m, it, k, hit, h, rfl⟩ := h
    obtain ⟨hm, hnext⟩ := path_iteration hit
    cases it with
    | fail =>
      rw [(path_pure.1 h).1]
      omega
    | sos pos' jpeg' =>
      rw [(path_pure.1 h).1]
      omega
    | next pos' jpeg' =>
      obtain ⟨hlt, hlen⟩ := returns_iteration ⟨m, hit⟩ pos' jpeg' (.inr rfl)
      have := hnext pos' jpeg' rfl
      have := ih (len - pos') (by omega) h rfl
      omega

/-- The loop from `pos` on: the positions its iterations start at, the last one being
where the scan starts, and what the parser returns. -/
inductive Loop (len : Nat) : Nat → JpegT → List Nat → Option JpegT → Prop
  | fail {pos : Nat} {jpeg : JpegT} : Returns (iteration len pos jpeg) .fail → Loop len pos jpeg [pos] none
  | sos {pos pos' : Nat} {jpeg jpeg' : JpegT} : Returns (iteration len pos jpeg) (.sos pos' jpeg') →
      Loop len pos jpeg [pos, pos'] (some (jpeg'.setData len pos'))
  | next {pos pos' : Nat} {jpeg jpeg' : JpegT} {ps : List Nat} {r : Option JpegT} :
      Returns (iteration len pos jpeg) (.next pos' jpeg') → Loop len pos' jpeg' ps r → Loop len pos jpeg (pos :: ps) r

/-- The loop is what the parser does. -/
theorem returns_parseSegments {len pos : Nat} {jpeg : JpegT} {r : Option JpegT} :
    Returns (parseSegments len pos jpeg) r ↔ ∃ ps, Loop len pos jpeg ps r := by
  constructor
  · intro h
    induction hmeasure : len - pos using Nat.strongRecOn generalizing pos jpeg with
    | ind left ih =>
      rw [parseSegments_eq, returns_bind] at h
      obtain ⟨it, hit, h⟩ := h
      cases it with
      | fail =>
        rw [returns_pure.1 h]
        exact ⟨[pos], .fail hit⟩
      | sos pos' jpeg' =>
        rw [returns_pure.1 h]
        exact ⟨[pos, pos'], .sos hit⟩
      | next pos' jpeg' =>
        obtain ⟨hlt, hlen⟩ := returns_iteration hit pos' jpeg' (.inr rfl)
        obtain ⟨ps, hps⟩ := ih (len - pos') (by omega) h rfl
        exact ⟨pos :: ps, .next hit hps⟩
  · intro h
    obtain ⟨ps, h⟩ := h
    induction h with
    | fail hit =>
      rw [parseSegments_eq, returns_bind]
      exact ⟨_, hit, returns_pure.2 rfl⟩
    | sos hit =>
      rw [parseSegments_eq, returns_bind]
      exact ⟨_, hit, returns_pure.2 rfl⟩
    | next hit _ ih =>
      rw [parseSegments_eq, returns_bind]
      exact ⟨_, hit, ih⟩

/-- Its positions increase, and are inside the buffer from the second on. -/
theorem Loop.positions {len pos : Nat} {jpeg : JpegT} {ps : List Nat} {r : Option JpegT} (h : Loop len pos jpeg ps r) :
    ps.Pairwise (· < ·) ∧ (∀ p ∈ ps, pos ≤ p) ∧ ∀ p ∈ ps, p = pos ∨ p < len := by
  induction h with
  | fail _ => simp
  | sos hit =>
    obtain ⟨hlt, hlen⟩ := returns_iteration hit _ _ (.inl rfl)
    simp [hlt, hlen, Nat.le_of_lt hlt]
  | next hit _ ih =>
    obtain ⟨hlt, hlen⟩ := returns_iteration hit _ _ (.inr rfl)
    obtain ⟨hpairs, hfirst, hinside⟩ := ih
    refine ⟨List.pairwise_cons.2 ⟨fun p hp => Nat.lt_of_lt_of_le hlt (hfirst p hp), hpairs⟩, ?_, ?_⟩
    · intro p hp
      rcases List.mem_cons.1 hp with rfl | hp
      · exact Nat.le_refl p
      · exact Nat.le_of_lt (Nat.lt_of_lt_of_le hlt (hfirst p hp))
    · intro p hp
      rcases List.mem_cons.1 hp with rfl | hp
      · exact .inl rfl
      · rcases hinside p hp with rfl | h
        · exact .inr hlen
        · exact .inr h

/-- Its scan starts at the last of them. -/
theorem Loop.window {len pos : Nat} {jpeg jpeg' : JpegT} {ps : List Nat} (h : Loop len pos jpeg ps (some jpeg')) :
    ∃ p, jpeg'.data = some p ∧ jpeg'.dataLen = UInt32.ofNat (len - p) ∧ pos < p ∧ p < len := by
  generalize hr : some jpeg' = r at h
  induction h with
  | fail _ => cases hr
  | sos hit =>
    cases hr
    exact ⟨_, rfl, rfl, returns_iteration hit _ _ (.inl rfl)⟩
  | next hit _ ih =>
    obtain ⟨p, hdata, hlength, hlt, hlen⟩ := ih hr
    exact ⟨p, hdata, hlength, Nat.lt_trans (returns_iteration hit _ _ (.inr rfl)).1 hlt, hlen⟩

/-! ## parse_jpeg -/

theorem path_parseJpeg {len n : Nat} {r : Option JpegT} (h : Path (parseJpeg len) n r) : n ≤ 1285 * len := by
  unfold parseJpeg at h
  split at h
  · rw [(path_pure.1 h).1]
    exact Nat.zero_le _
  rw [path_byte_bind] at h
  obtain ⟨b0, m, h, rfl⟩ := h
  split at h
  · rw [(path_pure.1 h).1]
    omega
  rw [path_byte_bind] at h
  obtain ⟨b1, m, h, rfl⟩ := h
  split at h
  · rw [(path_pure.1 h).1]
    omega
  · have := path_parseSegments h
    omega

theorem returns_parseJpeg {len : Nat} {jpeg : JpegT} (h : Returns (parseJpeg len) (some jpeg)) :
    2 ≤ len ∧ Returns (parseSegments len 2 .zeroed) (some jpeg) := by
  unfold parseJpeg at h
  split at h
  · cases returns_pure.1 h
  · next hlen =>
    rw [returns_bind] at h
    obtain ⟨b0, -, h⟩ := h
    split at h
    · cases returns_pure.1 h
    rw [returns_bind] at h
    obtain ⟨b1, -, h⟩ := h
    split at h
    · cases returns_pure.1 h
    · exact ⟨Nat.not_lt.1 hlen, h⟩

/-- What is meant by `parse_jpeg` ending on a buffer of `len` bytes. -/
structure Ends (len : Nat) : Prop where
  /-- However the reads are answered there are not more of them, and each iteration
  of a loop reads. -/
  reads : ReadsAtMost (1285 * len) (parseJpeg len)
  dqt : ∀ base size pos jpeg, ReadsAtMost (2 * (size - pos).toNat) (processDqt base size pos jpeg)
  dht : ∀ base size pos jpeg, ReadsAtMost (18 * (size - pos).toNat) (processDht base size pos jpeg)
  /-- The positions of the segments increase, in the buffer. -/
  positions : ∀ ps r, Loop len 2 .zeroed ps r → ps.Pairwise (· < ·) ∧ ∀ p ∈ ps, p = 2 ∨ p < len
  /-- What is left after the scan's header is the end of the buffer. -/
  window : ∀ jpeg, Returns (parseJpeg len) (some jpeg) →
    0 < jpeg.dataLen.toNat ∧ jpeg.dataLen.toNat < len ∧ ∃ p, jpeg.data = some p ∧ p + jpeg.dataLen.toNat = len

/-- **`parse_jpeg` ends**, on all paths and for every length of which the positions
are of type `int`. -/
theorem parse_jpeg_ends (len : Nat) (hlen : len + 65535 < 2 ^ 31) : Ends len where
  reads := readsAtMost_iff.2 fun _ _ => path_parseJpeg
  dqt base size pos jpeg := readsAtMost_iff.2 fun _ _ => path_processDqt
  dht base size pos jpeg := readsAtMost_iff.2 fun _ _ => path_processDht
  positions ps r h := ⟨h.positions.1, h.positions.2.2⟩
  window jpeg h := by
    obtain ⟨-, h⟩ := returns_parseJpeg h
    obtain ⟨ps, hloop⟩ := returns_parseSegments.1 h
    obtain ⟨p, hdata, hlength, hpos, hp⟩ := hloop.window
    have hl : jpeg.dataLen.toNat = len - p := by
      rw [hlength, UInt32.toNat_ofNat']
      omega
    exact ⟨by omega, by omega, p, hdata, by omega⟩

theorem parse_jpeg_ends_sample : Ends 1000 := parse_jpeg_ends 1000 (by decide)

end Camview
