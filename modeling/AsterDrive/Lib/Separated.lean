import Mathlib.Data.List.Basic
import Mathlib.Data.List.Infix
import Mathlib.Tactic.Common

/-!
# Separated — words between separators

Words in which the letter `c` does not occur, written one after the other with `c` behind each of
them. Such a text can be read in one way only, and one text is a beginning of another exactly if its
list of words is a beginning of the other's.
-/

namespace AsterDrive.Separated

open List

variable {α : Type*} {c : α} {x x' y y' : List α}

/-- The words of a text: what stands between separators, where something stands there. -/
def words [DecidableEq α] (c : α) (x : List α) : List (List α) := go x []
where
  /-- `word` is what was read since the last separator. -/
  go : List α → List α → List (List α)
    | [], word => if word = [] then [] else [word]
    | a :: rest, word =>
      if a = c then if word = [] then go rest [] else word :: go rest []
      else go rest (word ++ [a])

theorem cut_unique (hx : c ∉ x) (hx' : c ∉ x') (h : x ++ c :: y = x' ++ c :: y') : x = x' ∧ y = y' := by
  rcases append_eq_append_iff.mp h with ⟨s, rfl, hs⟩ | ⟨s, rfl, hs⟩
  · cases s with
    | nil => simpa using hs
    | cons a s =>
      cases hs
      simp at hx'
  · cases s with
    | nil => simpa [eq_comm] using hs
    | cons a s =>
      cases hs
      simp at hx

/-! ### Words one after the other -/

/-- Words with the separator behind each of them. -/
def joined (c : α) (xs : List (List α)) : List α := xs.flatMap (· ++ [c])

section

variable {xs ys : List (List α)}

@[simp] theorem joined_nil : joined c [] = [] := rfl

@[simp] theorem joined_cons : joined c (x :: xs) = x ++ c :: joined c xs := by
  simp [joined]

theorem joined_append : joined c (xs ++ ys) = joined c xs ++ joined c ys := by
  simp [joined]

theorem joined_prefix_iff (hxs : ∀ w ∈ xs, c ∉ w) (hys : ∀ w ∈ ys, c ∉ w) (hy : c ∉ y) :
    joined c xs <+: joined c ys ++ y ↔ xs <+: ys := by
  induction xs generalizing ys with
  | nil => simp
  | cons x xs ih =>
    cases ys with
    | nil =>
      -- the left text holds a separator
      have hleft : ¬ joined c (x :: xs) <+: y := by
        rintro ⟨t, rfl⟩
        simp at hy
      simpa using hleft
    | cons z ys =>
      have hx := hxs x mem_cons_self
      have hz := hys z mem_cons_self
      have ih := ih (fun w hw => hxs w (mem_cons_of_mem _ hw)) (fun w hw => hys w (mem_cons_of_mem _ hw))
      constructor
      · rintro ⟨t, ht⟩
        have hcut : x ++ c :: (joined c xs ++ t) = z ++ c :: (joined c ys ++ y) := by simpa using ht
        obtain ⟨rfl, hrest⟩ := cut_unique hx hz hcut
        exact cons_prefix_cons.mpr ⟨rfl, ih.mp ⟨t, hrest⟩⟩
      · intro h
        obtain ⟨rfl, hwords⟩ := cons_prefix_cons.mp h
        obtain ⟨t, ht⟩ := ih.mpr hwords
        exact ⟨t, by simp [ht]⟩

theorem joined_append_inj (hxs : ∀ w ∈ xs, c ∉ w) (hys : ∀ w ∈ ys, c ∉ w) (hx : c ∉ x) (hy : c ∉ y)
    (h : joined c xs ++ x = joined c ys ++ y) : xs = ys ∧ x = y := by
  have hle : xs <+: ys := (joined_prefix_iff hxs hys hy).mp (h ▸ prefix_append _ _)
  have hge : ys <+: xs := (joined_prefix_iff hys hxs hx).mp (h ▸ prefix_append _ _)
  obtain rfl : xs = ys := hle.eq_of_length_le hge.length_le
  exact ⟨rfl, append_cancel_left h⟩

/-! ### Reading them back -/

section

variable [DecidableEq α]

theorem words_go_word (hx : c ∉ x) (word rest : List α) : words.go c (x ++ c :: rest) word =
      if word ++ x = [] then words.go c rest [] else (word ++ x) :: words.go c rest [] := by
  induction x generalizing word with
  | nil => simp [words.go]
  | cons a x ih =>
    have hne : a ≠ c := fun h => hx (by simp [h])
    rw [cons_append, words.go, if_neg hne, ih (fun h => hx (mem_cons_of_mem _ h))]
    simp

theorem words_go_last (hx : c ∉ x) (word : List α) :
    words.go c x word = if word ++ x = [] then [] else [word ++ x] := by
  induction x generalizing word with
  | nil => simp [words.go]
  | cons a x ih =>
    have hne : a ≠ c := fun h => hx (by simp [h])
    rw [words.go, if_neg hne, ih (fun h => hx (mem_cons_of_mem _ h))]
    simp

theorem words_joined (hxs : ∀ w ∈ xs, c ∉ w ∧ w ≠ []) (hx : c ∉ x) :
    words c (joined c xs ++ x) = xs ++ if x = [] then [] else [x] := by
  unfold words
  induction xs with
  | nil => simpa using words_go_last hx []
  | cons w xs ih =>
    obtain ⟨hw, hne⟩ := hxs w mem_cons_self
    rw [joined_cons, append_assoc, cons_append, words_go_word hw, nil_append, if_neg hne,
      ih fun v hv => hxs v (mem_cons_of_mem _ hv)]
    rfl

theorem words_cons (t : List α) : words c (c :: t) = words c t := by
  simp [words, words.go]

end

end

end AsterDrive.Separated
