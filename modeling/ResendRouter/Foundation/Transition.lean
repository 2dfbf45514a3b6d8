import Mathlib.Logic.Relation
import Mathlib.Data.List.Basic

/-! # Guarded transition systems and their runs

A system has one initial state and an executable step. A guard restricts the
steps that a run may take, so that one system carries every assumption about
its environment (a common clock, a timing bound) as a choice of guard.
-/

namespace ResendRouter.Foundation
open Relation

/-- One initial state and a partial step function over actions. -/
structure System (σ α : Type*) where
  init : σ
  step : σ → α → Option σ

namespace System
variable {σ α τ β : Type*} (S : System σ α)

/-- A guard looks at the state before the step, the action, and the state after it. -/
abbrev Guard (σ α : Type*) := σ → α → σ → Prop

def free : Guard σ α := fun _ _ _ => True

instance (s : σ) (a : α) (t : σ) : Decidable (free s a t) := .isTrue trivial

def Next (G : Guard σ α) (s t : σ) : Prop := ∃ a, S.step s a = some t ∧ G s a t

/-- `t` occurs in a run from `s` all of whose steps satisfy the guard. -/
def Reaches (G : Guard σ α) : σ → σ → Prop := ReflTransGen (S.Next G)

def Reachable (G : Guard σ α) (s : σ) : Prop := S.Reaches G S.init s

variable {S} {G H : Guard σ α} {s t u : σ}

theorem Reachable.init : S.Reachable G S.init := ReflTransGen.refl

theorem Reachable.step (hs : S.Reachable G s) {a : α} (ht : S.step s a = some t)
    (hg : G s a t) : S.Reachable G t :=
  ReflTransGen.tail hs ⟨a, ht, hg⟩

theorem Reachable.trans (hs : S.Reachable G s) (ht : S.Reaches G s t) : S.Reachable G t :=
  ReflTransGen.trans hs ht

/-- The invariant rule, with the reachability of the source state at hand. -/
theorem Reachable.invariant {I : σ → Prop} (hs : S.Reachable G s) (h0 : I S.init)
    (hstep : ∀ s a t, S.Reachable G s → I s → S.step s a = some t → G s a t → I t) : I s := by
  induction hs with
  | refl => exact h0
  | tail hs hn ih =>
    rcases hn with ⟨a, ht, hg⟩
    exact hstep _ a _ hs ih ht hg

/-- What one guarded step of a reachable state preserves holds in every later state. -/
theorem Reachable.later {I : σ → Prop} (hs : S.Reachable G s) (hst : S.Reaches G s t) (h : I s)
    (hstep : ∀ s a t, S.Reachable G s → I s → S.step s a = some t → G s a t → I t) : I t := by
  induction hst with
  | refl => exact h
  | tail hu hn ih =>
    rcases hn with ⟨a, ht, hg⟩
    exact hstep _ a _ (hs.trans hu) ih ht hg

/-- Forward simulation: every step of the concrete system is a run of the abstract one. -/
theorem Reachable.simulate {T : System τ β} {K : Guard τ β} (f : σ → τ)
    (hs : S.Reachable G s) (h0 : f S.init = T.init)
    (hstep : ∀ s a t, S.Reachable G s → S.step s a = some t → G s a t →
      T.Reaches K (f s) (f t)) : T.Reachable K (f s) :=
  hs.invariant (I := fun s => T.Reachable K (f s)) (h0 ▸ Reachable.init)
    fun s a t hs ih ht hg => ih.trans (hstep s a t hs ht hg)

/-- A property that did not hold at first began to hold with some step of the run. -/
theorem Reachable.origin {P : σ → Prop} {Q : σ → α → σ → Prop} (hs : S.Reachable G s)
    (h0 : ¬ P S.init) (hP : P s)
    (hstep : ∀ s a t, S.Reachable G s → S.step s a = some t → G s a t → P t → P s ∨ Q s a t) :
    ∃ u a v, S.Reachable G u ∧ S.step u a = some v ∧ Q u a v ∧ S.Reaches G v s := by
  induction hs with
  | refl => exact absurd hP h0
  | tail hs hn ih =>
    have ⟨a, ht, hg⟩ := hn
    rcases hstep _ a _ hs ht hg hP with hP' | hQ
    · obtain ⟨u, b, v, hu, hv, hq, hreach⟩ := ih hP'
      exact ⟨u, b, v, hu, hv, hq, hreach.tail hn⟩
    · exact ⟨_, a, _, hs, ht, hQ, ReflTransGen.refl⟩

/-- The invariant rule for a run from any state. -/
theorem Reaches.invariant {I : σ → Prop} (hst : S.Reaches G s t) (h : I s)
    (hstep : ∀ s a t, I s → S.step s a = some t → G s a t → I t) : I t := by
  induction hst with
  | refl => exact h
  | tail _ hn ih =>
    rcases hn with ⟨a, ht, hg⟩
    exact hstep _ a _ ih ht hg

theorem Reaches.mono (hst : S.Reaches H s t) (hle : ∀ s a t, H s a t → G s a t) :
    S.Reaches G s t := by
  induction hst with
  | refl => exact ReflTransGen.refl
  | tail _ hn ih =>
    rcases hn with ⟨a, ha, hg⟩
    exact ih.tail ⟨a, ha, hle _ _ _ hg⟩

/-- A goal is reached from every state from which some step goes down in a measure. -/
theorem Reachable.exists_goal {P : σ → Prop} (m : σ → ℕ) (hle : ∀ s a t, H s a t → G s a t)
    (hs : S.Reachable G s) (hstep : ∀ s, S.Reachable G s → ¬ P s →
      ∃ t, S.Reaches H s t ∧ m t < m s) : ∃ t, S.Reaches H s t ∧ P t := by
  induction hm : m s using Nat.strongRecOn generalizing s with
  | ind n ih =>
    by_cases hP : P s
    · exact ⟨s, ReflTransGen.refl, hP⟩
    · obtain ⟨t, ht, hlt⟩ := hstep s hs hP
      obtain ⟨u, hu, hP⟩ := ih (m t) (hm ▸ hlt) (hs.trans (ht.mono hle)) rfl
      exact ⟨u, ReflTransGen.trans ht hu, hP⟩

section Run
variable (S) (G) [∀ s a t, Decidable (G s a t)]

/-- Execute a list of actions, stopping when a step or its guard fails. -/
def run : σ → List α → Option σ
  | s, [] => some s
  | s, a :: as => match S.step s a with
    | some t => if G s a t then run t as else none
    | none => none

variable {S} {G}

theorem reaches_of_run {as : List α} (h : S.run G s as = some t) : S.Reaches G s t := by
  induction as generalizing s with
  | nil =>
    obtain rfl : s = t := by simpa only [run, Option.some.injEq] using h
    exact ReflTransGen.refl
  | cons a as ih =>
    simp only [run] at h
    split at h
    case h_1 u hu =>
      split_ifs at h with hg
      exact ReflTransGen.head ⟨a, hu, hg⟩ (ih h)
    case h_2 => cases h

variable (S) (G)

/-- A concrete run exhibits a reachable state with a decidable property. -/
theorem exists_reachable_of_run (as : List α) (p : σ → Bool)
    (h : (S.run G S.init as).map p = some true) : ∃ s, S.Reachable G s ∧ p s = true := by
  obtain ⟨s, hs, hp⟩ := Option.map_eq_some_iff.mp h
  exact ⟨s, reaches_of_run hs, hp⟩

end Run

end System
end ResendRouter.Foundation
