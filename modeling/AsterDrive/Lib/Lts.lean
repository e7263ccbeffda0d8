import Mathlib.Data.List.Basic
import AsterDrive.Lib.Result

/-!
# Lts — labelled transition systems

One state, one step function, every choice of a scheduler or of the environment in the label.
`Reach T G s₀ s` says that `s` is reached from `s₀` by steps that all meet the guard `G`; `free` is
the guard that every step meets. `Reach.induct` is the invariant rule, `Reach.strengthen` the same
for an invariant that uses one proved before, and `Reach.project` carries a run of a system over to
a part of it. `reach_of_progress` and `run_bounded` are the rules for termination: that a run can end, and that it must.
-/

namespace AsterDrive

/-- `none`: the step is not enabled. -/
structure Lts (σ α : Type*) where
  step : σ → α → Option σ

namespace Lts

variable {σ α τ β : Type*}

/-- The guard that every step meets. -/
def free : σ → α → Prop := fun _ _ => True

instance (s : σ) (a : α) : Decidable (free s a) := inferInstanceAs (Decidable True)

/-- The states reached from `s₀` by steps that all meet the guard. -/
inductive Reach (T : Lts σ α) (G : σ → α → Prop) (s₀ : σ) : σ → Prop
  | refl : Reach T G s₀ s₀
  | step {s s' : σ} {a : α} (hs : Reach T G s₀ s) (hg : G s a) (ht : T.step s a = some s') : Reach T G s₀ s'

/-- A whole schedule, `none` as soon as one of its steps is not enabled or misses the guard. -/
def run (T : Lts σ α) (G : σ → α → Prop) [∀ s a, Decidable (G s a)] : List α → σ → Option σ
  | [], s => some s
  | a :: rest, s => if G s a then (T.step s a).bind (run T G rest) else none

variable {T : Lts σ α} {G : σ → α → Prop} {U : Lts τ β} {H : τ → β → Prop} {s₀ s s' : σ}

theorem Reach.trans {s₁ : σ} (h₁ : Reach T G s₀ s₁) (h₂ : Reach T G s₁ s) : Reach T G s₀ s := by
  induction h₂ with
  | refl => exact h₁
  | step _ hg ht ih => exact ih.step hg ht

theorem reach_of_run [∀ s a, Decidable (G s a)] {l : List α} (h : T.run G l s = some s') : Reach T G s s' := by
  induction l generalizing s with
  | nil =>
    obtain rfl : s = s' := by simpa [run] using h
    exact .refl
  | cons a rest ih =>
    simp only [run] at h
    split_ifs at h with hg
    obtain ⟨s1, ht, hrest⟩ := Option.bind_eq_some_iff.mp h
    exact (Reach.refl.step hg ht).trans (ih hrest)

/-- **Invariant rule.** What one step preserves, a whole run preserves. -/
theorem Reach.induct {I : σ → Prop} (h₀ : I s₀)
    (hstep : ∀ {s s' : σ} {a : α}, I s → G s a → T.step s a = some s' → I s') (h : Reach T G s₀ s) : I s := by
  induction h with
  | refl => exact h₀
  | step _ hg ht ih => exact hstep ih hg ht

/-- The invariant rule with an invariant `J` that is known to hold of every state reached. -/
theorem Reach.strengthen {I J : σ → Prop} (hJ : ∀ {s}, Reach T G s₀ s → J s) (h₀ : I s₀)
    (hstep : ∀ {s s' : σ} {a : α}, I s → J s → J s' → G s a → T.step s a = some s' → I s')
    (h : Reach T G s₀ s) : I s := by
  induction h with
  | refl => exact h₀
  | step hs hg ht ih => exact hstep ih (hJ hs) (hJ (hs.step hg ht)) hg ht

/-- A run of a system is a run of its part, if every step of the system is a step of the part or
leaves it alone. -/
theorem Reach.project (f : σ → τ) (hstep : ∀ {s s' : σ} {a : α}, G s a → T.step s a = some s' →
      f s' = f s ∨ ∃ b, H (f s) b ∧ U.step (f s) b = some (f s'))
    (h : Reach T G s₀ s) : Reach U H (f s₀) (f s) := by
  induction h with
  | refl => exact .refl
  | step _ hg ht ih =>
    rcases hstep hg ht with hsame | ⟨b, hb, hstep⟩
    · rw [hsame]
      exact ih
    · exact ih.step hb hstep

/-- **Progress rule.** A final state is reached, if from every other state that meets `I` some step leads to a smaller
one that meets `I`. -/
theorem reach_of_progress {I final : σ → Prop} (μ : σ → ℕ)
    (hprogress : ∀ s, I s → ¬ final s → ∃ a s', G s a ∧ T.step s a = some s' ∧ I s' ∧ μ s' < μ s) (h : I s) :
    ∃ s', Reach T G s s' ∧ I s' ∧ final s' := by
  induction hn : μ s using Nat.strongRecOn generalizing s with
  | ind n ih =>
    by_cases hfinal : final s
    · exact ⟨s, .refl, h, hfinal⟩
    · obtain ⟨a, s1, hg, ht, hI, hlt⟩ := hprogress s h hfinal
      obtain ⟨s', hreach, hI', hfinal'⟩ := ih (μ s1) (hn ▸ hlt) hI rfl
      exact ⟨s', (Reach.refl.step hg ht).trans hreach, hI', hfinal'⟩

/-- **Termination rule.** No schedule from `s` is longer than `μ s`, if every step from a state that meets `I` leads to
a smaller one that meets `I`. -/
theorem run_bounded [∀ s a, Decidable (G s a)] {I : σ → Prop} (μ : σ → ℕ)
    (hstep : ∀ {s s' : σ} {a : α}, I s → G s a → T.step s a = some s' → I s' ∧ μ s' < μ s) {l : List α} (h : I s)
    (hrun : T.run G l s = some s') : I s' ∧ μ s' + l.length ≤ μ s := by
  induction l generalizing s with
  | nil =>
    obtain rfl : s = s' := by simpa [run] using hrun
    exact ⟨h, Nat.le_refl _⟩
  | cons a rest ih =>
    simp only [run] at hrun
    split_ifs at hrun with hg
    obtain ⟨s1, ht, hrest⟩ := Option.bind_eq_some_iff.mp hrun
    obtain ⟨h1, hlt⟩ := hstep h hg ht
    obtain ⟨h', hle⟩ := ih h1 hrest
    refine ⟨h', ?_⟩
    rw [List.length_cons]
    omega

end Lts

end AsterDrive
