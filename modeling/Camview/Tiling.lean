/-
Blocks laid end to end. A list of blocks tiles an interval of offsets when each
block starts where the one before it ends and none is empty; where an offset is
in memory is a map `place` of its own, so that an address space that wraps is
covered as well.

Replacing one block by blocks that tile its own interval keeps a tiling: this is
all an allocator that splits and joins its blocks needs.
-/
import Mathlib.Data.List.Chain
import Mathlib.Data.Set.Basic

namespace Camview

/-- How a block says where it starts and how long it is. -/
structure Layout (κ A : Type) where
  addr : κ → A
  len : κ → Nat
  place : Nat → A

namespace Layout

variable {κ A : Type} (L : Layout κ A)

/-- The blocks tile the offsets from `a` to `b`. -/
def Tiles : Nat → List κ → Nat → Prop
  | a, [], b => a = b
  | a, c :: l, b => L.addr c = L.place a ∧ 0 < L.len c ∧ Tiles (a + L.len c) l b

/-- The addresses `n` offsets from `a` on take up. -/
def span (a n : Nat) : Set A := { x | ∃ k, a ≤ k ∧ k < a + n ∧ x = L.place k }

variable {L}

theorem tiles_append {l₁ l₂ : List κ} {a b : Nat} :
    L.Tiles a (l₁ ++ l₂) b ↔ ∃ m, L.Tiles a l₁ m ∧ L.Tiles m l₂ b := by
  induction l₁ generalizing a with
  | nil => simp [Tiles]
  | cons c l₁ ih => simp [Tiles, ih, and_assoc]

theorem Tiles.le {l : List κ} {a b : Nat} (h : L.Tiles a l b) : a ≤ b := by
  induction l generalizing a with
  | nil => exact Nat.le_of_eq h
  | cons c l ih =>
    have := ih h.2.2
    omega

/-- A tiling of no length has no blocks. -/
theorem Tiles.lt_of_ne_nil {l : List κ} {a b : Nat} (h : L.Tiles a l b) (hl : l ≠ []) : a < b := by
  cases l with
  | nil => exact absurd rfl hl
  | cons c l =>
    have := h.2.2.le
    have := h.2.1
    omega

/-- Blocks in the middle may be replaced by others that tile the same interval. -/
theorem Tiles.replace {pre mid mid' post : List κ} {a b : Nat} (h : L.Tiles a (pre ++ mid ++ post) b)
    (hm : ∀ x y, L.Tiles x mid y → L.Tiles x mid' y) : L.Tiles a (pre ++ mid' ++ post) b := by
  obtain ⟨y, hpm, hpost⟩ := tiles_append.1 h
  obtain ⟨x, hpre, hmid⟩ := tiles_append.1 hpm
  exact tiles_append.2 ⟨y, tiles_append.2 ⟨x, hpre, hm x y hmid⟩, hpost⟩

/-- Where a block of a tiling lies. -/
theorem Tiles.mem {l : List κ} {a b : Nat} (h : L.Tiles a l b) {c : κ} (hc : c ∈ l) :
    ∃ x, L.addr c = L.place x ∧ a ≤ x ∧ x + L.len c ≤ b := by
  induction l generalizing a with
  | nil => cases hc
  | cons d l ih =>
    rcases List.mem_cons.1 hc with rfl | hc
    · exact ⟨a, h.1, Nat.le_refl a, h.2.2.le⟩
    · obtain ⟨x, hx, hax, hxb⟩ := ih h.2.2 hc
      exact ⟨x, hx, by omega, hxb⟩

/-- Two blocks of a tiling: the one further left ends before the other starts. -/
theorem Tiles.pairwise {l : List κ} {a b : Nat} (h : L.Tiles a l b) :
    l.Pairwise fun c d => ∃ x y, L.addr c = L.place x ∧ L.addr d = L.place y ∧
      a ≤ x ∧ x + L.len c ≤ y ∧ y + L.len d ≤ b := by
  induction l generalizing a with
  | nil => exact .nil
  | cons c l ih =>
    refine .cons (fun d hd => ?_) ((ih h.2.2).imp ?_)
    · obtain ⟨y, hy, hay, hyb⟩ := h.2.2.mem hd
      exact ⟨a, y, h.1, hy, Nat.le_refl a, hay, hyb⟩
    · rintro d e ⟨x, y, hx, hy, hax, hxy, hyb⟩
      exact ⟨x, y, hx, hy, by omega, hxy, hyb⟩

/-- The next block's address, from a block's own, when offsets place additively. -/
theorem Tiles.isChain {l : List κ} {a b : Nat} (h : L.Tiles a l b) :
    l.IsChain fun c d => ∃ x, L.addr c = L.place x ∧ L.addr d = L.place (x + L.len c) ∧ x + L.len c < b := by
  induction l generalizing a with
  | nil => exact .nil
  | cons c l ih =>
    cases l with
    | nil => exact .singleton c
    | cons d l =>
      have hd : a + L.len c < b := h.2.2.lt_of_ne_nil (by simp)
      exact List.isChain_cons_cons.2 ⟨⟨a, h.1, h.2.2.1, hd⟩, ih h.2.2⟩

/-- Intervals apart take up different addresses as long as `place` is injective on them. -/
theorem span_disjoint {b x y m n : Nat} (hinj : ∀ i j, i < b → j < b → L.place i = L.place j → i = j)
    (hxy : x + m ≤ y) (hyb : y + n ≤ b) {p : A} (hp : p ∈ L.span x m) : p ∉ L.span y n := by
  rintro ⟨j, hj, hjn, rfl⟩
  obtain ⟨i, hi, him, he⟩ := hp
  have := hinj j i (by omega) (by omega) he
  omega

section Canonical

variable {p : κ → Prop} [DecidablePred p] {a b : Nat} {c d : κ} {cs ds : List κ}

/-- What follows a block that satisfies `p`, where no two neighbours do: nothing, or a
block that does not. -/
theorem Tiles.after (h : L.Tiles a (c :: cs) b) (hc : (c :: cs).IsChain fun c d => ¬ (p c ∧ p d)) (hp : p c) :
    cs.filter (¬ p ·) = [] ∧ a + L.len c = b ∨
      ∃ n rest, cs.filter (¬ p ·) = n :: rest ∧ L.addr n = L.place (a + L.len c) ∧ a + L.len c < b := by
  cases cs with
  | nil => exact .inl ⟨rfl, h.2.2⟩
  | cons n cs =>
    have hn : ¬ p n := fun hn => (List.isChain_cons_cons.1 hc).1 ⟨hp, hn⟩
    exact .inr ⟨n, cs.filter (¬ p ·), List.filter_cons_of_pos (by simpa using hn), h.2.2.1,
      h.2.2.lt_of_ne_nil (List.cons_ne_nil n cs)⟩

/-- A block at the start of a tiling is not further on in it. -/
theorem Tiles.notMem_tail (hinj : ∀ i j, i ≤ b → j ≤ b → L.place i = L.place j → i = j)
    (h : L.Tiles a (c :: cs) b) (hd : L.addr d = L.place a) : d ∉ cs := by
  intro hm
  obtain ⟨x, hx, hax, hxb⟩ := h.2.2.mem hm
  have hle := h.2.2.le
  have hpos := h.2.1
  have := hinj a x (by omega) (by omega) (hd.symm.trans hx)
  omega

/-- Two tilings of an interval without neighbours that satisfy `p` are the same when the
blocks that do not satisfy it are. -/
theorem Tiles.canonical (hinj : ∀ i j, i ≤ b → j ≤ b → L.place i = L.place j → i = j)
    (hext : ∀ c d, p c → p d → 0 < L.len c → L.addr c = L.addr d → L.len c = L.len d → c = d)
    (h : L.Tiles a cs b) (h' : L.Tiles a ds b) (hc : cs.IsChain fun c d => ¬ (p c ∧ p d))
    (hd : ds.IsChain fun c d => ¬ (p c ∧ p d)) (he : cs.filter (¬ p ·) = ds.filter (¬ p ·)) : cs = ds := by
  induction cs generalizing a ds with
  | nil =>
    cases ds with
    | nil => rfl
    | cons d ds => exact absurd h (Nat.ne_of_lt (h'.lt_of_ne_nil (List.cons_ne_nil d ds)))
  | cons c cs ih =>
    cases ds with
    | nil => exact absurd h' (Nat.ne_of_lt (h.lt_of_ne_nil (List.cons_ne_nil c cs)))
    | cons d ds =>
      have haddr : L.addr c = L.addr d := h.1.trans h'.1.symm
      by_cases hpc : p c
      · by_cases hpd : p d
        · -- The next blocks, which are the same, tell the lengths.
          rw [List.filter_cons_of_neg (by simpa using hpc), List.filter_cons_of_neg (by simpa using hpd)] at he
          have hlen : L.len c = L.len d := by
            rcases h.after hc hpc with ⟨hn, hb⟩ | ⟨n, rest, hn, hna, hb⟩
            · rcases h'.after hd hpd with ⟨-, hb'⟩ | ⟨n', rest', hn', -, -⟩
              · omega
              · rw [← he, hn] at hn'
                cases hn'
            · rcases h'.after hd hpd with ⟨hn', -⟩ | ⟨n', rest', hn', hna', hb'⟩
              · rw [← he, hn] at hn'
                cases hn'
              · rw [← he, hn] at hn'
                cases hn'
                have := hinj _ _ (Nat.le_of_lt hb) (Nat.le_of_lt hb') (hna.symm.trans hna')
                omega
          obtain rfl := hext c d hpc hpd h.2.1 haddr hlen
          rw [ih h.2.2 h'.2.2 (List.isChain_cons.1 hc).2 (List.isChain_cons.1 hd).2 he]
        · rw [List.filter_cons_of_neg (by simpa using hpc), List.filter_cons_of_pos (by simpa using hpd)] at he
          have hm : d ∈ cs := List.mem_of_mem_filter (he ▸ List.mem_cons_self ..)
          exact absurd hm (h.notMem_tail hinj h'.1)
      · by_cases hpd : p d
        · rw [List.filter_cons_of_pos (by simpa using hpc), List.filter_cons_of_neg (by simpa using hpd)] at he
          have hm : c ∈ ds := List.mem_of_mem_filter (he ▸ List.mem_cons_self ..)
          exact absurd hm (h'.notMem_tail hinj h.1)
        · rw [List.filter_cons_of_pos (by simpa using hpc), List.filter_cons_of_pos (by simpa using hpd),
            List.cons.injEq] at he
          obtain ⟨rfl, he⟩ := he
          rw [ih h.2.2 h'.2.2 (List.isChain_cons.1 hc).2 (List.isChain_cons.1 hd).2 he]

end Canonical

end Layout

/-- If no two neighbours both satisfy `p` and all do, there is at most one. -/
theorem eq_singleton_of_isChain {κ : Type} {p : κ → Prop} {c : κ} {l : List κ}
    (h : (c :: l).IsChain fun c d => ¬ (p c ∧ p d)) (hp : ∀ d ∈ c :: l, p d) : l = [] := by
  cases l with
  | nil => rfl
  | cons d l => exact absurd ⟨hp c (by simp), hp d (by simp)⟩ (List.isChain_cons_cons.1 h).1

end Camview
