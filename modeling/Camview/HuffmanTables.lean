/-
What `set_huffman_tables` hands to the engine. `buffer` is written as bytes, as
half-words and as words, at offsets that depend on the table; `tableByte` says what
each byte of a table's places holds, and these places are apart.

`huffman_tables_canonical`: for tables whose counts are those of a code, the
half-words are the first canonical codes, the bytes behind them the numbers of
shorter codes, and a decoder that compares bits with both finds every symbol.
-/
import Camview.HuffmanWrites
import Camview.LastWith

namespace Camview.Hw

open Reader Canonical

/-! ## The buffer -/

/-- Half-word `k` of a buffer, little endian. -/
def halfAt (bytes : Nat → UInt8) (k : Nat) : UInt16 :=
  (bytes (2 * k)).toUInt16 ||| (bytes (2 * k + 1)).toUInt16 <<< 8

/-- Word `k` of a buffer, little endian. -/
def wordAt (bytes : Nat → UInt8) (k : Nat) : UInt32 :=
  (bytes (4 * k)).toUInt32 ||| (bytes (4 * k + 1)).toUInt32 <<< 8 |||
    (bytes (4 * k + 2)).toUInt32 <<< 16 ||| (bytes (4 * k + 3)).toUInt32 <<< 24

/-- The bytes of table `i`, with `n` symbols. -/
def InTable (i n a : Nat) : Prop :=
  64 * i ≤ a ∧ a < 64 * i + 48 ∨ 1024 + 256 * i ≤ a ∧ a < 1024 + 256 * i + n

/-- The half-word of length `j + 1`. -/
def codeHalf (num : Nat → Nat) (j : Nat) : UInt16 :=
  if j ≤ lastOf num 16 then UInt16.ofNat (firstCode num j) else 0xffff

/-- What is written at the byte `a` for table `i` at `off`. -/
def tableByte (mem : Nat → UInt8) (i off a : Nat) : UInt8 :=
  if a < 64 * i + 32 then
    let half := codeHalf (numAt mem off) ((a - 64 * i) / 2)
    if (a - 64 * i) % 2 = 0 then half.toUInt8 else (half >>> 8).toUInt8
  else if a < 64 * i + 48 then UInt8.ofNat (before (numAt mem off) (a - (64 * i + 32)))
  else mem (off + 16 + (a - (1024 + 256 * i)))

/-- The counts of a table are those of a code: at most 256 symbols, and Kraft's
inequality. -/
structure CodeCounts (num : Nat → Nat) : Prop where
  sum : ∑ j ∈ Finset.range 16, num j ≤ 256
  kraft : ∑ j ∈ Finset.range 16, (num j : ℚ) / 2 ^ (j + 1) ≤ 1

instance (num : Nat → Nat) : Decidable (CodeCounts num) :=
  decidable_of_iff (∑ j ∈ Finset.range 16, num j ≤ 256 ∧ ∑ j ∈ Finset.range 16, (num j : ℚ) / 2 ^ (j + 1) ≤ 1)
    ⟨fun h => ⟨h.1, h.2⟩, fun h => ⟨h.sum, h.kraft⟩⟩

/-- A canonical decode table in the bytes of table `i`, for the table at `off`.
`lastOf` is the last length with a code, 0 without codes. -/
structure DecodeTable (mem bytes : Nat → UInt8) (i off : Nat) : Prop where
  first : ∀ j ≤ lastOf (numAt mem off) 16, (halfAt bytes (32 * i + j)).toNat = firstCode (numAt mem off) j
  beyond : ∀ j < 16, lastOf (numAt mem off) 16 < j → halfAt bytes (32 * i + j) = 0xffff
  offset : ∀ j < 16, (bytes (64 * i + 32 + j)).toNat = before (numAt mem off) j % 256
  symbol : ∀ s < before (numAt mem off) 16, bytes (1024 + 256 * i + s) = mem (off + 16 + s)
  decode : ∀ s c L, (codes (sizes (numAt mem off) 0 16))[s]? = some c → (sizes (numAt mem off) 0 16)[s]? = some L →
    1 ≤ L ∧ c < 2 ^ L ∧ ∀ bits : List Bool, L ≤ bits.length → value (bits.take L) = c →
      IsLeast { j | j < 16 ∧
        value (bits.take (j + 1)) < (halfAt bytes (32 * i + j)).toNat + numAt mem off j } (L - 1) ∧
      (bytes (64 * i + 32 + (L - 1))).toNat + value (bits.take L) - (halfAt bytes (32 * i + (L - 1))).toNat = s

variable {mem : Nat → UInt8} {jpeg : JpegT}

/-- A byte all writes to which write `v`. -/
theorem bufferByte_eq {writes : List (Nat × UInt8)} {a : Nat} {v : UInt8} (h : (a, v) ∈ writes)
    (hall : ∀ w ∈ writes, w.1 = a → w.2 = v) : bufferByte writes a = v := by
  have hlast : lastWith Prod.fst a writes = some (a, v) := by
    cases hl : lastWith Prod.fst a writes with
    | none =>
      unfold lastWith at hl
      rw [List.getLast?_eq_none_iff, List.filter_eq_nil_iff] at hl
      exact absurd (decide_eq_true (rfl : (a, v).1 = a)) (hl (a, v) h)
    | some w =>
      obtain ⟨hw, hk⟩ := lastWith_mem hl
      rw [← hall w hw hk, ← hk]
  show ((lastWith Prod.fst a writes).map Prod.snd).getD 0 = v
  rw [hlast]
  rfl

/-- A byte nothing is written to. -/
theorem bufferByte_zero {writes : List (Nat × UInt8)} {a : Nat} (h : ∀ w ∈ writes, w.1 ≠ a) :
    bufferByte writes a = 0 := by
  show ((lastWith Prod.fst a writes).map Prod.snd).getD 0 = 0
  rw [lastWith_eq_none h]
  rfl

theorem mem_halfWord {k : Nat} {v : UInt16} {w : Nat × UInt8} :
    w ∈ halfWord k v ↔ w = (2 * k, v.toUInt8) ∨ w = (2 * k + 1, (v >>> 8).toUInt8) := by
  rw [halfWord, List.mem_pair]

section TableByte

variable {i off j : Nat}

theorem tableByte_low (hj : j < 16) :
    tableByte mem i off (2 * (i * 32 + j)) = (codeHalf (numAt mem off) j).toUInt8 := by
  rw [tableByte, if_pos (by omega), if_pos (by omega), show (2 * (i * 32 + j) - 64 * i) / 2 = j by omega]

theorem tableByte_high (hj : j < 16) :
    tableByte mem i off (2 * (i * 32 + j) + 1) = (codeHalf (numAt mem off) j >>> 8).toUInt8 := by
  rw [tableByte, if_pos (by omega), if_neg (by omega), show (2 * (i * 32 + j) + 1 - 64 * i) / 2 = j by omega]

theorem tableByte_count (hj : j < 16) :
    tableByte mem i off (i * 64 + 32 + j) = UInt8.ofNat (before (numAt mem off) j) := by
  rw [tableByte, if_neg (by omega), if_pos (by omega), show i * 64 + 32 + j - (64 * i + 32) = j by omega]

theorem tableByte_symbol (hi : i < 4) : tableByte mem i off (4 * (256 + 64 * i) + j) = mem (off + 16 + j) := by
  rw [tableByte, if_neg (by omega), if_neg (by omega), show 4 * (256 + 64 * i) + j - (1024 + 256 * i) = j by omega]

end TableByte

/-- The writes for a table are one to each of its bytes. -/
theorem mem_huffmanWrites {i off : Nat} (hi : i < 4) {w : Nat × UInt8} :
    w ∈ (huffmanWrites i off).run mem ↔
      InTable i (before (numAt mem off) 16) w.1 ∧ w.2 = tableByte mem i off w.1 := by
  rw [huffmanWrites_run, List.mem_append, List.mem_append]
  constructor
  · rintro ((h | h) | h)
    · obtain ⟨j, hj, rfl⟩ := List.mem_map.1 h
      have hj' := List.mem_range.1 hj
      exact ⟨.inl (by dsimp only; omega), (tableByte_count hj').symm⟩
    · obtain ⟨k, hk, rfl⟩ := List.mem_map.1 h
      have hk' := List.mem_range.1 hk
      exact ⟨.inr (by dsimp only; omega), (tableByte_symbol hi).symm⟩
    · obtain ⟨j, hj, hw⟩ := List.mem_flatMap.1 h
      have hj' := List.mem_range.1 hj
      rcases mem_halfWord.1 hw with rfl | rfl
      · exact ⟨.inl (by dsimp only; omega), (tableByte_low hj').symm⟩
      · exact ⟨.inl (by dsimp only; omega), (tableByte_high hj').symm⟩
  · obtain ⟨a, v⟩ := w
    rintro ⟨hin | hin, hv⟩
    · dsimp only at hin hv
      by_cases hcode : a < 64 * i + 32
      · -- A half-word, low byte or high byte.
        refine .inr (List.mem_flatMap.2 ⟨(a - 64 * i) / 2, List.mem_range.2 (by omega), mem_halfWord.2 ?_⟩)
        rcases Nat.mod_two_eq_zero_or_one a with he | ho
        · have ha : a = 2 * (i * 32 + (a - 64 * i) / 2) := by omega
          refine .inl (Prod.ext ha ?_)
          rw [hv, ha, tableByte_low (by omega), ← ha]
          rfl
        · have ha : a = 2 * (i * 32 + (a - 64 * i) / 2) + 1 := by omega
          refine .inr (Prod.ext ha ?_)
          rw [hv, ha, tableByte_high (by omega), ← ha]
          rfl
      · obtain ⟨j, rfl⟩ := Nat.exists_eq_add_of_le (show i * 64 + 32 ≤ a by omega)
        refine .inl (.inl (List.mem_map.2 ⟨j, List.mem_range.2 (by omega), ?_⟩))
        rw [hv, tableByte_count (by omega)]
    · dsimp only at hin hv
      obtain ⟨k, rfl⟩ := Nat.exists_eq_add_of_le (show 4 * (256 + 64 * i) ≤ a by omega)
      refine .inl (.inr (List.mem_map.2 ⟨k, List.mem_range.2 (by omega), ?_⟩))
      rw [hv, tableByte_symbol hi]

/-! ## All tables -/

/-- The writes of all rounds. -/
def allWrites (mem : Nat → UInt8) (jpeg : JpegT) : List (Nat × UInt8) :=
  (([0, 1, 2, 3] : List (Fin 8)).map fun k => (roundWrites k.val (jpeg.huffman k)).run mem).flatten

theorem setHuffmanTables_run :
    (setHuffmanTables jpeg).run mem =
      (List.range 512).map fun k => .writel (wordAt (bufferByte (allWrites mem jpeg)) k) veMpegRamWriteData := by
  rw [setHuffmanTables, run_bind, run_mapM]
  rfl

theorem mem_allWrites {w : Nat × UInt8} :
    w ∈ allWrites mem jpeg ↔ ∃ k : Fin 8, k < 4 ∧ ∃ off, jpeg.huffman k = some off ∧
      InTable k (before (numAt mem off) 16) w.1 ∧ w.2 = tableByte mem k off w.1 := by
  have hindex (k : Fin 8) : k ∈ [0, 1, 2, 3] ↔ k < 4 := by
    revert k
    decide
  rw [allWrites, List.mem_flatten]
  constructor
  · rintro ⟨l, hl, hw⟩
    obtain ⟨k, hk, rfl⟩ := List.mem_map.1 hl
    have hk' := (hindex k).1 hk
    unfold roundWrites at hw
    split at hw
    · next off hoff => exact ⟨k, hk', off, hoff, (mem_huffmanWrites hk').1 hw⟩
    · exact absurd hw List.not_mem_nil
  · rintro ⟨k, hk, off, hoff, hin⟩
    refine ⟨_, List.mem_map.2 ⟨k, (hindex k).2 hk, rfl⟩, ?_⟩
    rw [hoff]
    exact (mem_huffmanWrites hk).2 hin

/-- Tables of at most 256 symbols are apart. -/
theorem inTable_unique {i i' n n' a : Nat} (hi : i < 4) (hi' : i' < 4) (hn : n ≤ 256) (hn' : n' ≤ 256)
    (h : InTable i n a) (h' : InTable i' n' a) : i = i' := by
  unfold InTable at h h'
  omega

/-- Every byte of a table holds what is written for it. -/
theorem bufferByte_table (hsum : ∀ k : Fin 8, k < 4 → ∀ off, jpeg.huffman k = some off →
    before (numAt mem off) 16 ≤ 256)
    {k : Fin 8} (hk : k < 4) {off a : Nat} (hoff : jpeg.huffman k = some off)
    (ha : InTable k (before (numAt mem off) 16) a) :
    bufferByte (allWrites mem jpeg) a = tableByte mem k off a := by
  refine bufferByte_eq (mem_allWrites.2 ⟨k, hk, off, hoff, ha, rfl⟩) ?_
  intro w hw hwa
  obtain ⟨k', hk', off', hoff', hin, hbyte⟩ := mem_allWrites.1 hw
  rw [hwa] at hin hbyte
  obtain rfl : k = k' :=
    Fin.ext (inTable_unique hk hk' (hsum k hk off hoff) (hsum k' hk' off' hoff') ha hin)
  rw [hoff] at hoff'
  cases hoff'
  exact hbyte

theorem half_of_bytes (v : UInt16) : v.toUInt8.toUInt16 ||| (v >>> 8).toUInt8.toUInt16 <<< 8 = v := by
  have hv := v.toNat_lt
  apply UInt16.toNat_inj.1
  rw [UInt16.or_comm, toNat_be16, UInt16.toNat_toUInt8, UInt16.toNat_toUInt8, UInt16.toNat_shiftRight]
  show 256 * (v.toNat >>> 8 % 2 ^ 8) + v.toNat % 2 ^ 8 = v.toNat
  rw [Nat.shiftRight_eq_div_pow]
  omega

/-! ## A table -/

section Table

variable {k : Fin 8} {off j : Nat}

/-- The half-words of a table are those written. -/
theorem halfAt_table {bytes : Nat → UInt8}
    (h : ∀ a, InTable k (before (numAt mem off) 16) a → bytes a = tableByte mem k off a) (hj : j < 16) :
    halfAt bytes (32 * k + j) = codeHalf (numAt mem off) j := by
  have hlow : bytes (2 * (32 * k + j)) = (codeHalf (numAt mem off) j).toUInt8 := by
    rw [Nat.mul_comm 32, h _ (.inl (by omega)), tableByte_low hj]
  have hhigh : bytes (2 * (32 * k + j) + 1) = (codeHalf (numAt mem off) j >>> 8).toUInt8 := by
    rw [Nat.mul_comm 32, h _ (.inl (by omega)), tableByte_high hj]
  rw [halfAt, hlow, hhigh, half_of_bytes]

/-- The first codes of lengths up to the last one fit in a half-word. -/
theorem toNat_codeHalf {num : Nat → Nat} (hkraft : kraftSum num 16 ≤ 2 ^ 16) (hj : j ≤ lastOf num 16) (hj16 : j < 16) :
    (codeHalf num j).toNat = firstCode num j := by
  have hlt : firstCode num j < 2 ^ 16 := by
    rcases num_lastOf num 16 with hzero | ⟨hlast, hnum⟩
    · rw [hzero] at hj
      rw [Nat.le_zero.1 hj]
      exact Nat.two_pow_pos 16
    · exact (firstCode_lt hkraft hlast hnum hj).trans_le (Nat.pow_le_pow_right (by decide) (by omega))
  rw [codeHalf, if_pos hj, UInt16.toNat_ofNat', Nat.mod_eq_of_lt hlt]

/-- A decoder that compares the bits with the half-words and the counts finds the
length of the code they start with, and with the bytes behind the half-words its
symbol. -/
theorem decode_table {num : Nat → Nat} (hsum : before num 16 ≤ 256) (hkraft : kraftSum num 16 ≤ 2 ^ 16)
    {half offset : Nat → Nat} (hhalf : ∀ j ≤ lastOf num 16, half j = firstCode num j)
    (hoffset : ∀ j < 16, offset j = before num j % 256) {s c L : Nat}
    (hc : (codes (sizes num 0 16))[s]? = some c) (hL : (sizes num 0 16)[s]? = some L) :
    1 ≤ L ∧ c < 2 ^ L ∧ ∀ bits : List Bool, L ≤ bits.length → value (bits.take L) = c →
      IsLeast { j | j < 16 ∧ value (bits.take (j + 1)) < half j + num j } (L - 1) ∧
      offset (L - 1) + value (bits.take L) - half (L - 1) = s := by
  have hs : s < before num 16 := by
    have hlen : before num 0 + (sizes num 0 16).length = before num (0 + 16) := length_sizes 0 16
    rw [show before num 0 = 0 from rfl, Nat.zero_add, Nat.zero_add] at hlen
    rw [← hlen]
    exact (List.getElem?_eq_some_iff.1 hL).1
  obtain ⟨j, hj, hlength⟩ := exists_hasLength hs
  have hk := hlength.sub_lt
  rw [sizes_getElem? hj hlength] at hL
  rw [codes_getElem? hj hlength] at hc
  cases hL
  cases hc
  have hfit := firstCode_add_le hkraft hj
  have hlast : j ≤ lastOf num 16 := le_lastOf hj (by omega)
  refine ⟨Nat.succ_pos j, by omega, ?_⟩
  intro bits hlen hbits
  obtain ⟨hmem, hleast⟩ := isLeast_decode hk hlen hbits
  rw [Nat.add_sub_cancel]
  refine ⟨⟨⟨hj, ?_⟩, ?_⟩, ?_⟩
  · rw [hhalf j hlast]
    exact hmem
  · rintro i ⟨-, hi⟩
    by_contra hlt
    have hij : i < j := Nat.not_le.1 hlt
    rw [hhalf i (hij.le.trans hlast)] at hi
    exact hlt (hleast hi)
  · have hle := hlength.le
    rw [hoffset j hj, hhalf j hlast, hbits, Nat.mod_eq_of_lt (by omega)]
    omega

theorem decodeTable (hcounts : CodeCounts (numAt mem off)) {bytes : Nat → UInt8}
    (h : ∀ a, InTable k (before (numAt mem off) 16) a → bytes a = tableByte mem k off a) (hk : k < 4) :
    DecodeTable mem bytes k off := by
  have hsum : before (numAt mem off) 16 ≤ 256 := (before_eq_sum 16).trans_le hcounts.sum
  have hkraft := (kraftSum_le_iff 16).2 hcounts.kraft
  have hlast16 : lastOf (numAt mem off) 16 < 16 := by
    rcases num_lastOf (numAt mem off) 16 with h0 | h0
    · omega
    · exact h0.1
  have hfirst : ∀ j ≤ lastOf (numAt mem off) 16, (halfAt bytes (32 * k + j)).toNat = firstCode (numAt mem off) j := by
    intro j hj
    rw [halfAt_table h (by omega), toNat_codeHalf hkraft hj (by omega)]
  have hoffset : ∀ j < 16, (bytes (64 * k + 32 + j)).toNat = before (numAt mem off) j % 256 := by
    intro j hj
    rw [Nat.mul_comm 64, h _ (.inl (by omega)), tableByte_count hj, UInt8.toNat_ofNat']
  refine ⟨hfirst, ?_, hoffset, ?_, ?_⟩
  · intro j hj hlt
    rw [halfAt_table h hj, codeHalf, if_neg (by omega)]
  · intro s hs
    rw [show 1024 + 256 * k.val + s = 4 * (256 + 64 * k.val) + s by omega, h _ (.inr (by omega)), tableByte_symbol hk]
  · intro s c L hc hL
    exact decode_table hsum hkraft hfirst hoffset hc hL

end Table

/-! ## The tables of a frame -/

/-- **Canonical decode tables.** For tables whose counts are those of a code, what
`set_huffman_tables` writes to the engine is 512 words of bytes that are a canonical
decode table for each of the tables 0 to 3 that is there, and 0 elsewhere. -/
theorem huffman_tables_canonical
    (hcounts : ∀ k : Fin 8, k < 4 → ∀ off, jpeg.huffman k = some off → CodeCounts (numAt mem off)) :
    ∃ bytes : Nat → UInt8,
      (setHuffmanTables jpeg).run mem = ((List.range 512).map fun k => .writel (wordAt bytes k) veMpegRamWriteData) ∧
      (∀ k : Fin 8, k < 4 → ∀ off, jpeg.huffman k = some off → DecodeTable mem bytes k off) ∧
      ∀ a < 4 * 512, (∀ k : Fin 8, k < 4 → ∀ off, jpeg.huffman k = some off →
        ¬ InTable k (before (numAt mem off) 16) a) → bytes a = 0 := by
  have hsum : ∀ k : Fin 8, k < 4 → ∀ off, jpeg.huffman k = some off → before (numAt mem off) 16 ≤ 256 := by
    intro k hk off hoff
    exact (before_eq_sum 16).trans_le (hcounts k hk off hoff).sum
  refine ⟨bufferByte (allWrites mem jpeg), setHuffmanTables_run, ?_, ?_⟩
  · intro k hk off hoff
    refine decodeTable (hcounts k hk off hoff) ?_ hk
    intro a ha
    exact bufferByte_table hsum hk hoff ha
  · intro a _ hout
    refine bufferByte_zero ?_
    intro w hw hwa
    obtain ⟨k, hk, off, hoff, hin, -⟩ := mem_allWrites.1 hw
    rw [hwa] at hin
    exact hout k hk off hoff hin

/-- Two codes of two bits and one of three, for the symbols 5, 6 and 7. -/
def smallTable (i : Nat) : UInt8 := ([0, 2, 1, 0, 0, 0, 0, 0, 0, 0, 0, 0, 0, 0, 0, 0, 5, 6, 7] : List UInt8).getD i 0

theorem huffman_tables_canonical_sample :
    ∃ bytes : Nat → UInt8,
      (setHuffmanTables (JpegT.zeroed.setHuffman 0 0)).run smallTable =
        ((List.range 512).map fun k => .writel (wordAt bytes k) veMpegRamWriteData) ∧
      DecodeTable smallTable bytes 0 0 ∧ bytes 48 = 0 := by
  have honly : ∀ k : Fin 8, k < 4 → ∀ off, (JpegT.zeroed.setHuffman 0 0).huffman k = some off → k = 0 ∧ off = 0 := by
    intro k _ off hoff
    by_cases hk : k = 0
    · subst hk
      cases hoff
      exact ⟨rfl, rfl⟩
    · have hnone : (JpegT.zeroed.setHuffman 0 0).huffman k = none := Function.update_of_ne hk _ _
      rw [hnone] at hoff
      cases hoff
  have hcounts : ∀ k : Fin 8, k < 4 → ∀ off, (JpegT.zeroed.setHuffman 0 0).huffman k = some off →
      CodeCounts (numAt smallTable off) := by
    intro k hk off hoff
    obtain ⟨rfl, rfl⟩ := honly k hk off hoff
    exact ⟨by decide, (kraftSum_le_iff 16).1 (by decide)⟩
  obtain ⟨bytes, hrun, htables, hzero⟩ := huffman_tables_canonical hcounts
  refine ⟨bytes, hrun, htables 0 (by decide) 0 rfl, hzero 48 (by decide) ?_⟩
  intro k hk off hoff
  obtain ⟨rfl, rfl⟩ := honly k hk off hoff
  unfold InTable
  decide

end Camview.Hw
