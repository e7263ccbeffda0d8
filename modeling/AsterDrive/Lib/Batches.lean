import Mathlib.Data.List.Perm.Basic
import Mathlib.Data.List.Sort
import Mathlib.Order.Basic
import Mathlib.Tactic.Common

/-!
# Batches — keys that are looked up in pieces

`chunks n l` cuts a list in pieces of `n`, `sortDedup l` sorts it and drops repetitions. Rows that are selected for one
key after the other are, up to their order, the rows that some key selects, if no row is selected twice
(`flatMap_filter_perm`): so it makes no difference how the keys are cut.
-/

namespace AsterDrive.Batches

open List

variable {α κ : Type*}

/-! ### Pieces -/

/-- Pieces of `n`; the last one may be shorter. -/
def chunks (n : ℕ) (l : List α) : List (List α) := go l []
where
  /-- `piece` is what was taken since the last cut. -/
  go : List α → List α → List (List α)
    | [], piece => if piece = [] then [] else [piece]
    | a :: rest, piece =>
      if piece.length + 1 = n then (piece ++ [a]) :: go rest [] else go rest (piece ++ [a])

section Chunks

variable {n : ℕ} {l piece : List α}

theorem flatten_go : (chunks.go n l piece).flatten = piece ++ l := by
  induction l generalizing piece with
  | nil =>
    unfold chunks.go
    split_ifs with hnil
    · rw [hnil]
      rfl
    · simp
  | cons a rest ih =>
    unfold chunks.go
    split_ifs with hfull
    · rw [flatten_cons, ih, nil_append, append_assoc]
      rfl
    · rw [ih, append_assoc]
      rfl

theorem flatten_chunks : (chunks n l).flatten = l := flatten_go

end Chunks

/-! ### Sorting and dropping repetitions -/

/-- Drops what equals its predecessor. -/
def dropRepeats [DecidableEq α] : List α → List α
  | [] => []
  | a :: rest =>
    match dropRepeats rest with
    | [] => [a]
    | b :: kept => if a = b then b :: kept else a :: b :: kept

/-- Ascending, each once. -/
def sortDedup [LinearOrder α] (l : List α) : List α := dropRepeats (l.insertionSort (· ≤ ·))

section SortDedup

theorem mem_dropRepeats [DecidableEq α] {l : List α} {x : α} : x ∈ dropRepeats l ↔ x ∈ l := by
  induction l with
  | nil => rfl
  | cons a rest ih =>
    unfold dropRepeats
    split
    · rename_i hnil
      rw [hnil] at ih
      simp only [mem_cons, ← ih]
    · rename_i b kept hkept
      rw [hkept] at ih
      split_ifs with hab
      · rw [hab, mem_cons (l := rest), ← ih]
        simp
      · rw [mem_cons, ih, mem_cons]

variable [LinearOrder α] {l : List α}

theorem dropRepeats_ascending (h : l.Pairwise (· ≤ ·)) : (dropRepeats l).Pairwise (· < ·) := by
  induction l with
  | nil => exact .nil
  | cons a rest ih =>
    obtain ⟨hfirst, hrest⟩ := pairwise_cons.mp h
    have hsub : ∀ x ∈ dropRepeats rest, a ≤ x := fun x hx => hfirst x ((mem_dropRepeats).mp hx)
    have ih := ih hrest
    unfold dropRepeats
    split
    · exact pairwise_singleton _ _
    · rename_i b kept hkept
      rw [hkept] at ih hsub
      split_ifs with hab
      · exact ih
      · refine pairwise_cons.mpr ⟨fun x hx => ?_, ih⟩
        have hlt : a < b := lt_of_le_of_ne (hsub b mem_cons_self) hab
        rcases mem_cons.mp hx with rfl | hkeptx
        · exact hlt
        · exact hlt.trans ((pairwise_cons.mp ih).1 x hkeptx)

theorem mem_sortDedup {x : α} : x ∈ sortDedup l ↔ x ∈ l := by
  unfold sortDedup
  rw [mem_dropRepeats, mem_insertionSort]

theorem sortDedup_ascending : (sortDedup l).Pairwise (· < ·) := dropRepeats_ascending (pairwise_insertionSort _ _)

theorem nodup_sortDedup : (sortDedup l).Nodup := (sortDedup_ascending).imp fun h => ne_of_lt h

end SortDedup

/-! ### Rows that are selected key by key -/

section Select

variable {rows : List α} {ks : List κ}

theorem filter_append_filter_perm {p q : α → Bool} (h : ∀ r ∈ rows, p r → ¬ q r) :
    (rows.filter p ++ rows.filter q).Perm (rows.filter fun r => p r || q r) := by
  induction rows with
  | nil => exact .nil
  | cons r rows ih =>
    have ih := ih fun r' hr' => h r' (mem_cons_of_mem _ hr')
    have hr := h r mem_cons_self
    by_cases hp : p r
    · rw [filter_cons_of_pos hp, filter_cons_of_neg (hr hp), filter_cons_of_pos (by simp [hp])]
      exact ih.cons r
    · by_cases hq : q r
      · rw [filter_cons_of_neg hp, filter_cons_of_pos hq, filter_cons_of_pos (by simp [hq])]
        exact perm_middle.trans (ih.cons r)
      · rw [filter_cons_of_neg hp, filter_cons_of_neg hq, filter_cons_of_neg (by simp [hp, hq])]
        exact ih

/-- **Key by key.** -/
theorem flatMap_filter_perm {select : κ → α → Bool} (h : ks.Pairwise fun k k' => ∀ r ∈ rows, select k r → ¬ select k' r) :
    (ks.flatMap fun k => rows.filter (select k)).Perm (rows.filter fun r => ks.any fun k => select k r) := by
  induction ks with
  | nil => simp
  | cons k ks ih =>
    obtain ⟨hk, hks⟩ := pairwise_cons.mp h
    rw [flatMap_cons]
    refine ((ih hks).append_left _).trans (filter_append_filter_perm fun r hr hsel hany => ?_)
    obtain ⟨k', hk', hsel'⟩ := any_eq_true.mp hany
    exact hk k' hk' r hr hsel hsel'

end Select

end AsterDrive.Batches
