/-
Counting along a replay: how often its steps do something, a balance between two counts
and a quantity of the state, and a quantity that bounds a count.
-/
import Camview.Transition

namespace Camview.Machine

variable {σ α : Type} {M : Machine σ α}

/-- The sum of `w` over the steps of a replay. -/
def tally (M : Machine σ α) (w : σ → α → Nat) : σ → List α → Nat
  | _, [] => 0
  | s, a :: as => w s a + (M.step s a).elim 0 (M.tally w · as)

/-- A quantity every step takes from that is counted bounds the count. -/
theorem tally_le {I : σ → Prop} {f : σ → Nat} {w : σ → α → Nat} (hI : ∀ s a t, I s → M.step s a = some t → I t)
    (hstep : ∀ s a t, I s → M.step s a = some t → f t + w s a ≤ f s) {s t : σ} {as : List α} (hs : I s)
    (he : M.exec s as = some t) : f t + M.tally w s as ≤ f s := by
  induction as generalizing s with
  | nil =>
    simp only [Machine.exec, Option.some.injEq] at he
    simp [he, tally]
  | cons a as ih =>
    simp only [Machine.exec, Option.bind_eq_some_iff] at he
    obtain ⟨u, hu, he⟩ := he
    have hone := hstep s a u hs hu
    have hrest := ih (hI s a u hs hu) he
    simp only [tally, hu, Option.elim_some]
    omega

end Camview.Machine
