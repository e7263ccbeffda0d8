import Mathlib.Tactic.Common
import Mathlib.Data.List.Basic

/-!
# Census — how many members of a list are in a class, when one of them moves

A list of processes that changes at one place at a time: `of_set` says who is met afterwards, `replaced` is the balance of
one class across the move, `le_of_imp` and `add_le_of_disjoint` compare classes of the same list.
-/

namespace AsterDrive.Census

open List

variable {α : Type*} {l : List α} {i j : ℕ} {a b : α} {p q r : α → Bool}

/-- Who is met after a move is the one that moved, or has stayed. -/
theorem of_set (h : (l.set i b)[j]? = some a) : (j = i ∧ a = b) ∨ (j ≠ i ∧ l[j]? = some a) := by
  rw [getElem?_set] at h
  split_ifs at h with hij hlt
  · exact .inl ⟨hij.symm, (Option.some.inj h).symm⟩
  · exact .inr ⟨fun heq => hij heq.symm, h⟩

/-- Who is met when one has come is that one, or was there before. -/
theorem of_append (h : (l ++ [b])[j]? = some a) : l[j]? = some a ∨ a = b := by
  rw [getElem?_append] at h
  split_ifs at h with hlt
  · exact .inl h
  · exact .inr (mem_singleton.mp (mem_of_getElem? h))

/-- The member at `i` moves from `a` to `b`: it leaves the classes of `a` and joins those of `b`. -/
theorem replaced (p : α → Bool) (h : l[i]? = some a) :
    (l.set i b).countP p + (if p a then 1 else 0) = l.countP p + if p b then 1 else 0 := by
  obtain ⟨hi, rfl⟩ := List.getElem?_eq_some_iff.mp h
  rw [countP_set hi]
  have hpos : p l[i] = true → 0 < l.countP p := fun hp => countP_pos_iff.mpr ⟨l[i], getElem_mem hi, hp⟩
  split_ifs with hp
  all_goals first | omega | (have hpos' := hpos hp; omega)

theorem joined (p : α → Bool) (l : List α) (b : α) : (l ++ [b]).countP p = l.countP p + if p b then 1 else 0 := by
  rw [countP_append, countP_singleton]

theorem le_of_imp (h : ∀ x ∈ l, p x → q x) : l.countP p ≤ l.countP q := countP_mono_left h

theorem add_le_of_disjoint (hp : ∀ x ∈ l, p x → r x) (hq : ∀ x ∈ l, q x → r x)
    (hpq : ∀ x ∈ l, p x → q x = false) : l.countP p + l.countP q ≤ l.countP r := by
  induction l with
  | nil => simp
  | cons x xs ih =>
    have hrest := ih (fun y hy => hp y (mem_cons_of_mem _ hy)) (fun y hy => hq y (mem_cons_of_mem _ hy))
      fun y hy => hpq y (mem_cons_of_mem _ hy)
    have hpx := hp x mem_cons_self
    have hqx := hq x mem_cons_self
    have hpqx := hpq x mem_cons_self
    simp only [countP_cons]
    cases hpv : p x <;> cases hqv : q x <;> cases hrv : r x <;> simp_all <;> omega

end AsterDrive.Census
