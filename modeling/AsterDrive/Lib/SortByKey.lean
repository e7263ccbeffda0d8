import Mathlib.Data.List.Sort
import Mathlib.Data.Int.Order.Basic

/-!
# SortByKey — a stable sort by an integer key

`sortByKey key l` is `slice::sort_by_key`: stable, ascending. When the keys of a list are distinct
there is only one way to sort it, so every permutation of an already sorted list is sorted to that
list (`sortByKey_eq`), and what is looked up by key is found (`mapM_find`).
-/

namespace AsterDrive

open List

universe u v

variable {α : Type u} {β : Type v} {key : α → ℤ} {l l' : List α}

/-- Stable ascending sort by `key`. -/
def sortByKey (key : α → ℤ) (l : List α) : List α := l.insertionSort fun a b => key a ≤ key b

theorem sortByKey_perm (key : α → ℤ) (l : List α) : (sortByKey key l).Perm l := perm_insertionSort _ l

theorem sortByKey_pairwise (key : α → ℤ) (l : List α) : (sortByKey key l).Pairwise fun a b => key a ≤ key b := by
  have htotal : Std.Total fun a b : α => key a ≤ key b := ⟨fun a b => le_total (key a) (key b)⟩
  have htrans : IsTrans α fun a b : α => key a ≤ key b := ⟨fun _ _ _ => le_trans⟩
  exact pairwise_insertionSort _ l

/-- Two lists with the same elements in ascending order are equal when the keys of one are distinct. -/
theorem eq_of_ascending (hperm : l.Perm l') (hl : l.Pairwise fun a b => key a ≤ key b)
    (hl' : l'.Pairwise fun a b => key a < key b) : l = l' := by
  have hle : l'.Pairwise fun a b => key a ≤ key b := hl'.imp fun h => le_of_lt h
  refine Perm.eq_of_pairwise ?_ hl hle hperm
  intro a b ha hb hab hba
  have hnodup : (l'.map key).Nodup := by
    unfold List.Nodup
    rw [pairwise_map]
    exact hl'.imp fun h => ne_of_lt h
  exact inj_on_of_nodup_map hnodup (hperm.subset ha) hb (le_antisymm hab hba)

theorem sortByKey_eq (hperm : l.Perm l') (hl' : l'.Pairwise fun a b => key a < key b) : sortByKey key l = l' :=
  eq_of_ascending ((sortByKey_perm key l).trans hperm) (sortByKey_pairwise key l) hl'

theorem mapM_find {name : α → β} [DecidableEq β] (hsub : ∀ x ∈ l, x ∈ l')
    (hinj : ∀ x ∈ l', ∀ y ∈ l', name x = name y → x = y) :
    (l.map name).mapM (fun q => l'.find? fun x => name x = q) = some l := by
  induction l with
  | nil => rfl
  | cons x l ih =>
    have hx : x ∈ l' := hsub x mem_cons_self
    have hfind : (l'.find? fun y => name y = name x) = some x := by
      rcases hy : l'.find? fun y => name y = name x with _ | y
      · have hnone := find?_eq_none.mp hy x hx
        simp at hnone
      · have hname : name y = name x := by simpa using find?_some hy
        rw [hinj y (mem_of_find?_eq_some hy) x hx hname]
    rw [map_cons, mapM_cons, hfind, ih fun y hy => hsub y (mem_cons_of_mem _ hy)]
    rfl

end AsterDrive
