/-
Transition systems with an executable step: what a run reaches, and the one
induction every invariant of this development goes through.

`Via C` is reachability by runs whose steps all meet a condition `C` on the
state before the step and the action taken; `Reach` puts no condition. A
result about the runs a scheduler may produce is a result about `Via C` for
the condition that rules the other runs out.
-/
import Camview.FinSizes
import Mathlib.Logic.Basic

namespace Camview

/-- A labelled transition system: where it starts, and what an action does
(`none` when the action is not enabled). -/
structure Machine (σ α : Type) where
  init : σ → Prop
  step : σ → α → Option σ

namespace Machine

variable {σ α : Type} {M : Machine σ α}

/-- The states of the runs whose steps all meet `C`. -/
inductive Via (M : Machine σ α) (C : σ → α → Prop) : σ → Prop
  | start : M.init s → Via M C s
  | next : Via M C s → C s a → M.step s a = some s' → Via M C s'

/-- The states of all runs. -/
def Reach (M : Machine σ α) : σ → Prop := M.Via fun _ _ => True

theorem Via.reach {C : σ → α → Prop} {s} (h : M.Via C s) : M.Reach s := by
  induction h with
  | start hi => exact .start hi
  | next _ _ hs ih => exact .next ih trivial hs

/-- A condition that implies another in reachable states allows fewer runs. -/
theorem Via.mono {C D : σ → α → Prop} {s} (h : M.Via C s) (hCD : ∀ s a, M.Reach s → C s a → D s a) :
    M.Via D s := by
  induction h with
  | start hi => exact .start hi
  | next hv hc hs ih => exact .next ih (hCD _ _ hv.reach hc) hs

theorem Reach.start {s} (h : M.init s) : M.Reach s := Via.start h

theorem Reach.next {s a s'} (h : M.Reach s) (hs : M.step s a = some s') : M.Reach s' :=
  Via.next h trivial hs

/-- What holds at the start and is kept by every step that meets `C`, taken
from a state such a run reaches, holds in every state of these runs. -/
theorem Via.invariant {C : σ → α → Prop} {I : σ → Prop} (h0 : ∀ s, M.init s → I s)
    (hstep : ∀ s a s', M.Via C s → I s → C s a → M.step s a = some s' → I s') {s} (h : M.Via C s) : I s := by
  induction h with
  | start hi => exact h0 _ hi
  | next hv hc hs ih => exact hstep _ _ _ hv ih hc hs

theorem Reach.invariant {I : σ → Prop} (h0 : ∀ s, M.init s → I s)
    (hstep : ∀ s a s', M.Reach s → I s → M.step s a = some s' → I s') {s} (h : M.Reach s) : I s :=
  Via.invariant h0 (fun s a s' hv hi _ => hstep s a s' hv hi) h

/-- Where a step keeps `P` exactly if it meets `C`, the runs whose steps all meet
`C` are those that end with `P`: going back from the end, what holds after a step
held before it. -/
theorem via_iff {C : σ → α → Prop} {P : σ → Prop} (h0 : ∀ s, M.init s → P s)
    (hstep : ∀ s a s', M.Reach s → M.step s a = some s' → (P s' ↔ P s ∧ C s a)) {s} :
    M.Via C s ↔ M.Reach s ∧ P s := by
  constructor
  · intro h
    exact ⟨h.reach, h.invariant h0 fun s a s' hv hp hc hs => (hstep s a s' hv.reach hs).2 ⟨hp, hc⟩⟩
  · intro ⟨h, hp⟩
    induction h with
    | start hi => exact .start hi
    | next hr _ hs ih =>
      obtain ⟨hp, hc⟩ := (hstep _ _ _ hr hs).1 hp
      exact (ih hp).next hc hs

/-- Where a step that meets `B` keeps `P` exactly if it meets `C`, the runs whose steps
all meet both are those whose steps meet `B` and that end with `P`: going back from the
end, what holds after a step held before it. -/
theorem via_and_iff {B C : σ → α → Prop} {P : σ → Prop} (h0 : ∀ s, M.init s → P s)
    (hstep : ∀ s a s', M.Via B s → B s a → M.step s a = some s' → (P s' ↔ P s ∧ C s a)) {s} :
    M.Via (fun s a => B s a ∧ C s a) s ↔ M.Via B s ∧ P s := by
  constructor
  · intro h
    induction h with
    | start hi => exact ⟨.start hi, h0 _ hi⟩
    | next _ hc hs ih => exact ⟨ih.1.next hc.1 hs, (hstep _ _ _ ih.1 hc.1 hs).2 ⟨ih.2, hc.2⟩⟩
  · intro ⟨h, hp⟩
    induction h with
    | start hi => exact .start hi
    | next hv hb hs ih =>
      obtain ⟨hp, hc⟩ := (hstep _ _ _ hv hb hs).1 hp
      exact (ih hp).next ⟨hb, hc⟩ hs

/-- Where a step that meets `B` leads from `P` to `P` exactly if it meets `C`, the runs
whose steps all meet `C` are those whose states all satisfy `P`. -/
theorem via_iff_forall {B C : σ → α → Prop} {P : σ → Prop} (h0 : ∀ s, M.init s → P s)
    (hstep : ∀ s a s', P s → B s a → M.step s a = some s' → (P s' ↔ C s a)) {s} :
    M.Via (fun s a => B s a ∧ C s a) s ↔ M.Via (fun s a => B s a ∧ ∀ s', M.step s a = some s' → P s') s := by
  constructor
  · intro h
    suffices M.Via (fun s a => B s a ∧ ∀ s', M.step s a = some s' → P s') s ∧ P s from this.1
    induction h with
    | start hi => exact ⟨.start hi, h0 _ hi⟩
    | next _ hc hs ih =>
      have hP := (hstep _ _ _ ih.2 hc.1 hs).2 hc.2
      exact ⟨ih.1.next ⟨hc.1, fun s' hs' => by rw [hs] at hs'; cases hs'; exact hP⟩ hs, hP⟩
  · intro h
    suffices M.Via (fun s a => B s a ∧ C s a) s ∧ P s from this.1
    induction h with
    | start hi => exact ⟨.start hi, h0 _ hi⟩
    | next _ hc hs ih =>
      have hP := hc.2 _ hs
      exact ⟨ih.1.next ⟨hc.1, (hstep _ _ _ ih.2 hc.1 hs).1 hP⟩ hs, hP⟩

/-! ## Stretches of a run -/

/-- Zero or more steps, all meeting `C`. -/
inductive Steps (M : Machine σ α) (C : σ → α → Prop) : σ → σ → Prop
  | refl : Steps M C s s
  | tail : Steps M C s t → C t a → M.step t a = some u → Steps M C s u

theorem Steps.head {C : σ → α → Prop} {s t u : σ} {a : α} (hc : C s a) (hs : M.step s a = some t)
    (h : M.Steps C t u) : M.Steps C s u := by
  induction h with
  | refl => exact .tail .refl hc hs
  | tail _ hd hs ih => exact ih.tail hd hs

theorem Steps.trans {C : σ → α → Prop} {s t u : σ} (h : M.Steps C s t) (h' : M.Steps C t u) : M.Steps C s u := by
  induction h' with
  | refl => exact h
  | tail _ hd hs ih => exact ih.tail hd hs

theorem Via.steps {C : σ → α → Prop} {s t : σ} (h : M.Via C s) (h' : M.Steps C s t) : M.Via C t := by
  induction h' with
  | refl => exact h
  | tail _ hd hs ih => exact ih.next hd hs

/-- What every step keeps that meets `C`, taken from a state of such a run,
holds at the end of a stretch if it held at the start. -/
theorem Steps.invariant {C D : σ → α → Prop} {I : σ → Prop} {s t} (hv : M.Via C s) (hDC : ∀ s a, D s a → C s a)
    (hstep : ∀ s a s', M.Via C s → I s → D s a → M.step s a = some s' → I s') (h : M.Steps D s t) (h0 : I s) :
    I t := by
  suffices M.Via C t ∧ I t from this.2
  induction h with
  | refl => exact ⟨hv, h0⟩
  | tail _ hd hs ih => exact ⟨.next ih.1 (hDC _ _ hd) hs, hstep _ _ _ ih.1 ih.2 hd hs⟩

/-! ## Refinement -/

/-- `f` maps the runs meeting `C` to runs of `N`: a step is a step of `N`, or is
not seen there. What `N` keeps in every reachable state then holds through `f`. -/
theorem Via.refines {τ ι : Type} {N : Machine τ ι} {C : σ → α → Prop} (f : σ → τ)
    (h0 : ∀ s, M.init s → N.init (f s))
    (hstep : ∀ s a s', M.Via C s → C s a → M.step s a = some s' →
      f s' = f s ∨ ∃ b, N.step (f s) b = some (f s')) {s} (h : M.Via C s) : N.Reach (f s) := by
  refine h.invariant (I := fun s => N.Reach (f s)) (fun s hi => .start (h0 s hi)) fun s a s' hv ih hc hs => ?_
  rcases hstep s a s' hv hc hs with e | ⟨b, hb⟩
  · rw [e]; exact ih
  · exact ih.next hb

/-! ## Replaying a list of actions -/

/-- The state after the actions `as`, when each is enabled in turn. -/
def exec (M : Machine σ α) : σ → List α → Option σ
  | s, [] => some s
  | s, a :: as => (M.step s a).bind (M.exec · as)

/-- A replay of actions that meet `C` in whatever state they are taken. -/
theorem Via.exec {C : σ → α → Prop} {s s' : σ} {as : List α} (h : M.Via C s) (hc : ∀ a ∈ as, ∀ t, C t a)
    (he : M.exec s as = some s') : M.Via C s' := by
  induction as generalizing s with
  | nil =>
    simp only [Machine.exec, Option.some.injEq] at he
    exact he ▸ h
  | cons a as ih =>
    simp only [Machine.exec, Option.bind_eq_some_iff] at he
    obtain ⟨t, ht, he⟩ := he
    exact ih (h.next (hc a (by simp) s) ht) (fun b hb => hc b (by simp [hb])) he

theorem Reach.exec {s s' : σ} {as : List α} (h : M.Reach s) (he : M.exec s as = some s') : M.Reach s' :=
  Via.exec h (fun _ _ _ => trivial) he

/-- A replay that stops where `C` is not met. -/
def execIf (M : Machine σ α) (C : σ → α → Prop) [∀ s a, Decidable (C s a)] : σ → List α → Option σ
  | s, [] => some s
  | s, a :: as => if C s a then (M.step s a).bind (M.execIf C · as) else none

theorem Via.execIf {C : σ → α → Prop} [∀ s a, Decidable (C s a)] {s s' : σ} {as : List α} (h : M.Via C s)
    (he : M.execIf C s as = some s') : M.Via C s' := by
  induction as generalizing s with
  | nil =>
    simp only [Machine.execIf, Option.some.injEq] at he
    exact he ▸ h
  | cons a as ih =>
    simp only [Machine.execIf, Option.ite_none_right_eq_some, Option.bind_eq_some_iff] at he
    obtain ⟨hc, t, ht, he⟩ := he
    exact ih (h.next hc ht) he

/-- A replay is a stretch of a run. -/
theorem Steps.exec {s t u : σ} {as : List α} (h : M.Steps (fun _ _ => True) s t) (he : M.exec t as = some u) :
    M.Steps (fun _ _ => True) s u := by
  induction as generalizing t with
  | nil =>
    simp only [Machine.exec, Option.some.injEq] at he
    exact he ▸ h
  | cons a as ih =>
    simp only [Machine.exec, Option.bind_eq_some_iff] at he
    obtain ⟨t', ht, he⟩ := he
    exact ih (h.tail trivial ht) he

/-- A replay from an initial state that ends where `p` holds. -/
theorem reach_of_exec {s : σ} (as : List α) (p : σ → Bool) (hi : M.init s)
    (h : (M.exec s as).map p = some true) : ∃ t, M.Reach t ∧ p t = true := by
  cases he : M.exec s as with
  | none => simp [he] at h
  | some t =>
    simp only [he, Option.map_some, Option.some.injEq] at h
    exact ⟨t, (Reach.start hi).exec he, h⟩

end Machine

end Camview
