import Mathlib.Logic.Function.Basic
import Mathlib.Order.Basic
import Mathlib.Tactic.Common

/-!
# Interleave — processes that share a state, one atomic step at a time

A `System` says what one process may do to the shared state `σ` and to its own local state `π`
when the scheduler (or the environment) makes the choice `α` for it. `fire` lets one process of a
configuration move, `run` plays a whole schedule, and `Reach S G c₀ c` says that `c` is reached
from `c₀` by steps that all meet the guard `G`; `G := free` puts no condition on the steps.

Three proof rules come with it: `Reach.induct` (one invariant of the whole configuration),
`Reach.owicki` (an invariant of the shared state, an assertion about each process, and a relation
between any two different processes, with the two interference conditions written apart), and
`run_reach`, which turns an executed schedule into a reachable configuration.
-/

namespace AsterDrive.Interleave

open List Option Function

/-- Processes with local state `π` over a shared state `σ`; `α` collects every choice that the
scheduler, the clients or a failing dependency make. `none`: the choice is not enabled. -/
structure System (σ π α : Type*) where
  step : α → σ → π → Option (σ × π)

/-- The shared state together with the local state of every process. -/
structure Config (σ π : Type*) where
  shared : σ
  proc : ℕ → π

variable {σ π α : Type*}

namespace System

variable (S : System σ π α)

/-- Process `i` makes the step that the choice `a` stands for. -/
def fire (c : Config σ π) (i : ℕ) (a : α) : Option (Config σ π) :=
  (S.step a c.shared (c.proc i)).map fun r => ⟨r.1, Function.update c.proc i r.2⟩

/-- A whole schedule, `none` as soon as one of its steps is not enabled or misses the guard. -/
def run (G : σ → π → α → Prop) [∀ s p a, Decidable (G s p a)] (c : Config σ π) : List (ℕ × α) → Option (Config σ π)
  | [] => some c
  | (i, a) :: rest =>
    if G c.shared (c.proc i) a then (S.fire c i a).bind fun c' => run G c' rest else none

end System

/-- The guard that every step meets. -/
def free : σ → π → α → Prop := fun _ _ _ => True

instance (s : σ) (p : π) (a : α) : Decidable (free s p a) := inferInstanceAs (Decidable True)

/-- The configurations reached from `c₀` by steps that all meet the guard. -/
inductive Reach (S : System σ π α) (G : σ → π → α → Prop) (c₀ : Config σ π) : Config σ π → Prop
  | refl : Reach S G c₀ c₀
  | step {c c' : Config σ π} {i : ℕ} {a : α} (hc : Reach S G c₀ c)
      (hg : G c.shared (c.proc i) a) (hf : S.fire c i a = some c') : Reach S G c₀ c'

variable {S : System σ π α} {G : σ → π → α → Prop} {c₀ c c' : Config σ π} {i : ℕ} {a : α}

theorem fire_eq_some (h : S.fire c i a = some c') : ∃ s' p', S.step a c.shared (c.proc i) = some (s', p') ∧
      c' = ⟨s', Function.update c.proc i p'⟩ := by
  unfold System.fire at h
  obtain ⟨⟨s', p'⟩, hstep, rfl⟩ := map_eq_some_iff.mp h
  exact ⟨s', p', hstep, rfl⟩

theorem Reach.trans {c₁ c₂ : Config σ π} (h₁ : Reach S G c₀ c₁) (h₂ : Reach S G c₁ c₂) :
    Reach S G c₀ c₂ := by
  induction h₂ with
  | refl => exact h₁
  | step _ hg hf ih => exact ih.step hg hf

theorem run_reach [∀ s p a, Decidable (G s p a)] {l : List (ℕ × α)} (h : S.run G c l = some c') : Reach S G c c' := by
  induction l generalizing c with
  | nil =>
    obtain rfl : c = c' := by simpa [System.run] using h
    exact .refl
  | cons x rest ih =>
    simp only [System.run] at h
    split_ifs at h with hg
    obtain ⟨c1, hf, hrest⟩ := bind_eq_some_iff.mp h
    exact (Reach.refl.step hg hf).trans (ih hrest)

theorem reach_run_get [∀ s p a, Decidable (G s p a)] {l : List (ℕ × α)}
    (h : (S.run G c l).isSome) : Reach S G c ((S.run G c l).get h) :=
  run_reach (some_get h).symm

/-- **Invariant rule.** What one step preserves, a whole run preserves. -/
theorem Reach.induct {I : Config σ π → Prop} (h₀ : I c₀)
    (hstep : ∀ {c c' : Config σ π} {i : ℕ} {a : α}, I c → G c.shared (c.proc i) a → S.fire c i a = some c' → I c')
    (h : Reach S G c₀ c) : I c := by
  induction h with
  | refl => exact h₀
  | step _ hg hf ih => exact hstep ih hg hf

/-- An invariant of the shared state, an assertion about every process and a relation between any
two different processes. -/
structure Holds (I : σ → Prop) (A : σ → π → Prop) (R : π → π → Prop) (c : Config σ π) : Prop where
  shared : I c.shared
  each : ∀ i, A c.shared (c.proc i)
  pair : ∀ i j, i ≠ j → R (c.proc i) (c.proc j)

/-- **Interference rule.** `own` is about the process that moves, `other` about a process that
watches it move. -/
theorem Reach.owicki {I : σ → Prop} {A : σ → π → Prop} {R : π → π → Prop}
    (own : ∀ {s s' : σ} {p p' : π} {a : α}, I s → A s p → G s p a → S.step a s p = some (s', p') → I s' ∧ A s' p')
    (other : ∀ {s s' : σ} {p p' q : π} {a : α}, I s → A s p → A s q → R p q → R q p → G s p a →
      S.step a s p = some (s', p') → A s' q ∧ R p' q ∧ R q p')
    (h₀ : Holds I A R c₀) (h : Reach S G c₀ c) : Holds I A R c := by
  refine h.induct h₀ ?_
  intro c c' i a hc hg hf
  obtain ⟨s', p', hstep, rfl⟩ := fire_eq_some hf
  obtain ⟨hI, hA⟩ := own hc.shared (hc.each i) hg hstep
  have hother : ∀ j, j ≠ i → A s' (c.proc j) ∧ R p' (c.proc j) ∧ R (c.proc j) p' := fun j hj =>
    other hc.shared (hc.each i) (hc.each j) (hc.pair i j (Ne.symm hj)) (hc.pair j i hj) hg hstep
  refine ⟨hI, fun j => ?_, fun j k hjk => ?_⟩
  · rcases eq_or_ne j i with rfl | hj
    · simpa using hA
    · simpa [update_of_ne hj] using (hother j hj).1
  · -- the process that moved is `j`, or `k`, or neither of them
    rcases eq_or_ne j i with rfl | hj
    · simpa [update_of_ne (Ne.symm hjk)] using (hother k (Ne.symm hjk)).2.1
    · rcases eq_or_ne k i with rfl | hk
      · simpa [update_of_ne hj] using (hother j hj).2.2
      · simpa [update_of_ne hj, update_of_ne hk] using hc.pair j k hjk

end AsterDrive.Interleave
