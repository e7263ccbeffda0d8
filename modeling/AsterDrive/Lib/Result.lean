import Mathlib.Tactic.Common

/-!
# Result — computations that may fail, taken apart

Inversion lemmas for `Except`: what a successful sequence, test or lookup says about its parts.
Transactions are written as `do` blocks in `Except`, and every proof about a committed transaction
starts with these lemmas.
-/

namespace AsterDrive

open List Option

universe u v

variable {ε : Type u} {α β : Type v}

theorem ok_pair_inj {σ τ : Type*} {a b : σ} {s t : τ} (h : (.ok (a, s) : Except ε (σ × τ)) = .ok (b, t)) : a = b ∧ s = t :=
  Prod.mk.inj (Except.ok.inj h)

theorem some_pair_inj {σ τ : Type*} {a b : σ} {s t : τ} (h : some (a, s) = some (b, t)) : a = b ∧ s = t :=
  Prod.mk.inj (some.inj h)

theorem map_pair_eq_some {ρ σ τ : Type*} {o : Option ρ} {f : ρ → σ} {g : ρ → τ} {a : σ} {b : τ}
    (h : (o.map fun x => (f x, g x)) = some (a, b)) : ∃ x, o = some x ∧ f x = a ∧ g x = b := by
  obtain ⟨x, hx, heq⟩ := map_eq_some_iff.mp h
  exact ⟨x, hx, Prod.mk.inj heq⟩

theorem bind_ok_iff {x : Except ε α} {f : α → Except ε β} {b : β} :
    (x >>= f) = .ok b ↔ ∃ a, x = .ok a ∧ f a = .ok b := by
  cases x with
  | error e | ok a => simp [bind, Except.bind]

theorem bind_ok {x : Except ε α} {f : α → Except ε β} {b : β} (h : (x >>= f) = .ok b) : ∃ a, x = .ok a ∧ f a = .ok b :=
  (bind_ok_iff).mp h

theorem pure_ok_iff {a b : α} : (pure a : Except ε α) = .ok b ↔ a = b := by
  simp [pure, Except.pure]

theorem map_ok_iff {x : Except ε α} {f : α → β} {b : β} : (f <$> x) = .ok b ↔ ∃ a, x = .ok a ∧ f a = b := by
  cases x with
  | error e | ok a => simp [Functor.map, Except.map]

theorem mapped_ok_iff {x : Except ε α} {f : α → β} {b : β} : x.map f = .ok b ↔ ∃ a, x = .ok a ∧ f a = b := map_ok_iff

/-! The same for computations that carry a state. -/

theorem bind_state_ok {σ : Type v} {x : StateT σ (Except ε) α} {f : α → StateT σ (Except ε) β} {s s' : σ} {b : β} :
    (x >>= f) s = .ok (b, s') ↔ ∃ a s1, x s = .ok (a, s1) ∧ f a s1 = .ok (b, s') := by
  show (x s >>= fun p => f p.1 p.2) = _ ↔ _
  rw [bind_ok_iff]
  constructor
  · rintro ⟨⟨a, s1⟩, hx, hf⟩
    exact ⟨a, s1, hx, hf⟩
  · rintro ⟨a, s1, hx, hf⟩
    exact ⟨(a, s1), hx, hf⟩

theorem pure_state_ok {σ : Type v} {a b : α} {s s' : σ} :
    (pure a : StateT σ (Except ε) α) s = .ok (b, s') ↔ a = b ∧ s = s' := by
  show Except.ok (a, s) = _ ↔ _
  simp

theorem forM_ok_iff {l : List α} {f : α → Except ε PUnit} :
    l.forM f = .ok PUnit.unit ↔ ∀ x ∈ l, f x = .ok PUnit.unit := by
  induction l with
  | nil => simp [pure, Except.pure]
  | cons x xs ih =>
    rw [List.forM, bind_ok_iff]
    constructor
    · rintro ⟨⟨⟩, hx, hxs⟩ y hy
      rcases mem_cons.mp hy with rfl | hy
      · exact hx
      · exact ih.mp hxs y hy
    · intro h
      exact ⟨PUnit.unit, h x mem_cons_self, ih.mpr fun y hy => h y (mem_cons_of_mem _ hy)⟩

/-- A loop whose rounds succeed succeeds, and its results stand for what they were made from. -/
theorem mapM_succeeds {γ : Type*} {l : List α} {f : α → Except ε β} {source : α → γ} {target : β → γ}
    (h : ∀ x ∈ l, ∃ y, f x = .ok y ∧ target y = source x) :
    ∃ ys, l.mapM f = .ok ys ∧ ys.map target = l.map source := by
  induction l with
  | nil => exact ⟨[], rfl, rfl⟩
  | cons x xs ih =>
    obtain ⟨y, hy, hsame⟩ := h x mem_cons_self
    obtain ⟨ys, hys, hall⟩ := ih fun z hz => h z (mem_cons_of_mem _ hz)
    refine ⟨y :: ys, ?_, ?_⟩
    · rw [mapM_cons]
      exact (bind_ok_iff).mpr ⟨y, hy, (bind_ok_iff).mpr ⟨ys, hys, rfl⟩⟩
    · rw [map_cons, map_cons, hsame, hall]

theorem foldlM_ok {σ α : Type v} {l : List α} {f : σ → α → Except ε σ} {I : σ → Prop} {P : α → Prop}
    {s s' : σ} (hstep : ∀ {s x s'}, x ∈ l → I s → f s x = .ok s' → I s' ∧ P x) (hs : I s)
    (h : l.foldlM f s = .ok s') : I s' ∧ ∀ x ∈ l, P x := by
  induction l generalizing s with
  | nil =>
    cases h
    exact ⟨hs, by simp⟩
  | cons x xs ih =>
    rw [foldlM_cons] at h
    obtain ⟨s1, hx, h⟩ := bind_ok h
    obtain ⟨hs1, hPx⟩ := hstep mem_cons_self hs hx
    obtain ⟨hs', hall⟩ := ih (fun hy => hstep (mem_cons_of_mem _ hy)) hs1 h
    refine ⟨hs', fun y hy => ?_⟩
    rcases mem_cons.mp hy with rfl | hy
    · exact hPx
    · exact hall y hy

end AsterDrive
