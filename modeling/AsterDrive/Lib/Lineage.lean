import Mathlib.Data.List.Nodup
import Mathlib.Tactic.Common

/-!
# Lineage — chains of rows that point at their predecessor

Rows have an `id` and an optional `pred`, the id of an older row. `Linked l` says that `l` lists a
chain newest first: every row points at the next one and the last row points at nothing.
`Follows lookup` is the walk a reader makes through a table, and `follows_of_linked` connects the
two. A chain changes in two ways: a row is put in front (`linked_cons`), or `unlink` takes a row
out and lets its successor point at the row's own predecessor.
-/

namespace AsterDrive.Lineage

open List Option

variable {ρ ι : Type*} [DecidableEq ι]

/-- Every row points at the next one of the list, the last one at nothing. -/
def Linked (id : ρ → ι) (pred : ρ → Option ι) : List ρ → Prop
  | [] => True
  | r :: l => pred r = l.head?.map id ∧ Linked id pred l

/-- The rows met by looking up an id, then the predecessor of the row found, and so on until a row
has no predecessor. -/
inductive Follows (lookup : ι → Option ρ) (pred : ρ → Option ι) : Option ι → List ρ → Prop
  | stop : Follows lookup pred none []
  | visit {i : ι} {r : ρ} {l : List ρ} (hr : lookup i = some r) (hl : Follows lookup pred (pred r) l) :
      Follows lookup pred (some i) (r :: l)

/-- Take `v` out of the chain; the row that pointed at it points at its predecessor instead. -/
def unlink (id : ρ → ι) (pred : ρ → Option ι) (setPred : ρ → Option ι → ρ) (v : ρ) (l : List ρ) :
    List ρ :=
  (l.filter fun r => id r ≠ id v).map fun r => if pred r = some (id v) then setPred r (pred v) else r

variable {id : ρ → ι} {pred : ρ → Option ι} {setPred : ρ → Option ι → ρ} {lookup : ι → Option ρ} {l : List ρ} {v r : ρ}

omit [DecidableEq ι] in
theorem linked_cons (hr : pred r = l.head?.map id) (hl : Linked id pred l) : Linked id pred (r :: l) := ⟨hr, hl⟩

omit [DecidableEq ι] in
theorem follows_of_linked (hl : Linked id pred l) (hlook : ∀ r ∈ l, lookup (id r) = some r) :
    Follows lookup pred (l.head?.map id) l := by
  induction l with
  | nil => exact .stop
  | cons r l ih =>
    obtain ⟨hr, hl⟩ := hl
    have hrest := ih hl fun x hx => hlook x (mem_cons_of_mem _ hx)
    rw [← hr] at hrest
    exact .visit (hlook r mem_cons_self) hrest

omit [DecidableEq ι] in
theorem Follows.getLast {c : Option ι} (h : Follows lookup pred c l) (hne : l ≠ []) :
    ∃ r, l.getLast? = some r ∧ pred r = none := by
  induction h with
  | stop => exact absurd rfl hne
  | @visit i r l hr hl ih =>
    cases l with
    | nil =>
      refine ⟨r, rfl, ?_⟩
      generalize hp : pred r = p at hl
      cases hl
      rfl
    | cons x xs =>
      obtain ⟨y, hy, hyp⟩ := ih (by simp)
      exact ⟨y, by rw [getLast?_cons_cons, hy], hyp⟩

omit [DecidableEq ι] in
theorem Follows.unique {c : Option ι} {l' : List ρ} (h : Follows lookup pred c l) (h' : Follows lookup pred c l') :
    l = l' := by
  induction h generalizing l' with
  | stop =>
    cases h'
    rfl
  | @visit i r l hr hl ih =>
    cases h' with
    | visit hr' hl' =>
      obtain rfl := some.inj (hr.symm.trans hr')
      rw [ih hl']

omit [DecidableEq ι] in
theorem Follows.behind {c : Option ι} {front back : List ρ} (h : Follows lookup pred c (front ++ r :: back)) :
    Follows lookup pred (pred r) back := by
  induction front generalizing c with
  | nil =>
    cases h with
    | visit hr hl => exact hl
  | cons x front ih =>
    cases h with
    | visit hr hl => exact ih hl

omit [DecidableEq ι] in
theorem Follows.nodup {c : Option ι} (h : Follows lookup pred c l) : l.Nodup := by
  induction h with
  | stop => exact nodup_nil
  | @visit i r l hr hl ih =>
    refine nodup_cons.mpr ⟨fun hmem => ?_, ih⟩
    -- the walk behind the second meeting is the walk behind the first
    obtain ⟨front, back, hsplit⟩ := append_of_mem hmem
    rw [hsplit] at hl
    have hlength := congrArg List.length (hl.unique hl.behind)
    rw [length_append, length_cons] at hlength
    omega

omit [DecidableEq ι] in
theorem Follows.mem {c : Option ι} (h : Follows lookup pred c l) (hr : r ∈ l) : ∃ i, lookup i = some r := by
  induction h with
  | stop => cases hr
  | @visit i x l hx hl ih =>
    rcases mem_cons.mp hr with rfl | hr
    · exact ⟨i, hx⟩
    · exact ih hr

omit [DecidableEq ι] in
theorem Follows.linked {c : Option ι} (h : Follows lookup pred c l) (hid : ∀ i r, lookup i = some r → id r = i) :
    c = l.head?.map id ∧ Linked id pred l := by
  induction h with
  | stop => exact ⟨rfl, trivial⟩
  | @visit i r l hr hl ih =>
    refine ⟨?_, linked_cons ih.1 ih.2⟩
    rw [head?_cons, map_some, hid i r hr]

omit [DecidableEq ι] in
theorem Follows.mono {c : Option ι} {lookup' : ι → Option ρ} (h : Follows lookup pred c l)
    (hsub : ∀ i r, lookup i = some r → lookup' i = some r) : Follows lookup' pred c l := by
  induction h with
  | stop => exact .stop
  | @visit i r l hr hl ih => exact .visit (hsub i r hr) ih

omit [DecidableEq ι] in
theorem Linked.pred_mem (hl : Linked id pred l) (hr : r ∈ l) {i : ι} (hi : pred r = some i) : i ∈ l.map id := by
  induction l with
  | nil => simp at hr
  | cons x xs ih =>
    obtain ⟨hx, hxs⟩ := hl
    rw [map_cons]
    refine mem_cons_of_mem _ ?_
    rcases mem_cons.mp hr with rfl | hr
    · cases xs with
      | nil =>
        rw [hx] at hi
        simp at hi
      | cons y ys =>
        rw [hx] at hi
        simp only [head?_cons, map_some, some.injEq] at hi
        simp [hi]
    · exact ih hxs hr

omit [DecidableEq ι] in
theorem Linked.pred_unique (hl : Linked id pred l) (hnd : (l.map id).Nodup) {x y : ρ}
    (hx : x ∈ l) (hy : y ∈ l) {i : ι} (hxi : pred x = some i) (hyi : pred y = some i) : x = y := by
  induction l with
  | nil => simp at hx
  | cons a l ih =>
    obtain ⟨ha, hl⟩ := hl
    obtain ⟨_, hnd'⟩ := nodup_cons.mp hnd
    -- the head points at the next row, and no later row points at that one
    have later : ∀ z ∈ l, pred a = some i → pred z = some i → False := by
      intro z hz hai hzi
      cases l with
      | nil => simp at hz
      | cons b l =>
        rw [ha] at hai
        simp only [head?_cons, map_some, some.injEq] at hai
        obtain ⟨hb, hl'⟩ := hl
        obtain ⟨hbl, _⟩ := nodup_cons.mp hnd'
        refine hbl ?_
        rw [hai]
        rcases mem_cons.mp hz with rfl | hz
        · cases l with
          | nil =>
            rw [hb] at hzi
            simp at hzi
          | cons c l =>
            rw [hb] at hzi
            simp only [head?_cons, map_some, some.injEq] at hzi
            simp [hzi]
        · exact hl'.pred_mem hz hzi
    rcases mem_cons.mp hx with rfl | hx'
    · rcases mem_cons.mp hy with rfl | hy'
      · rfl
      · exact (later y hy' hxi hyi).elim
    · rcases mem_cons.mp hy with rfl | hy'
      · exact (later x hx' hyi hxi).elim
      · exact ih hl hnd' hx' hy'

/-! ### Taking a row out -/

theorem unlink_of_notMem (hl : Linked id pred l) (hv : id v ∉ l.map id) : unlink id pred setPred v l = l := by
  have hfilter : (l.filter fun r => id r ≠ id v) = l := by
    rw [filter_eq_self]
    intro r hr
    simp only [decide_not, Bool.not_eq_eq_eq_not, Bool.not_true, decide_eq_false_iff_not]
    intro hrv
    exact hv (hrv ▸ List.mem_map_of_mem hr)
  unfold unlink
  rw [hfilter]
  refine (map_congr_left fun r hr => ?_).trans (List.map_id l)
  rw [if_neg fun hp => hv (hl.pred_mem hr hp)]
  rfl

section

variable (hid : ∀ r p, id (setPred r p) = id r) (hpred : ∀ r p, pred (setPred r p) = p)
include hid

omit [DecidableEq ι] in
private theorem id_relink (p : Prop) [Decidable p] (q : Option ι) : id (if p then setPred r q else r) = id r := by
  split_ifs
  · exact hid r q
  · rfl

theorem head_unlink (hl : Linked id pred l) (hnd : (l.map id).Nodup) (hv : v ∈ l) :
    (unlink id pred setPred v l).head?.map id =
      if l.head?.map id = some (id v) then pred v else l.head?.map id := by
  cases l with
  | nil => simp at hv
  | cons r l =>
    obtain ⟨hr, hl⟩ := hl
    obtain ⟨hrl, hnd⟩ := nodup_cons.mp hnd
    simp only [head?_cons, map_some, some.injEq]
    by_cases hrv : id r = id v
    · have hvr : v = r := by
        rcases mem_cons.mp hv with rfl | hv
        · rfl
        · exact absurd (hrv ▸ List.mem_map_of_mem hv) hrl
      subst hvr
      rw [if_pos rfl, hr]
      have hun : unlink id pred setPred v (v :: l) = unlink id pred setPred v l := by
        simp [unlink]
      rw [hun, unlink_of_notMem hl hrl]
    · rw [if_neg hrv]
      simp [unlink, hrv, id_relink hid]

include hpred

/-- **Unlinking keeps the chain a chain.** -/
theorem linked_unlink (hl : Linked id pred l) (hnd : (l.map id).Nodup) (hv : v ∈ l) :
    Linked id pred (unlink id pred setPred v l) := by
  induction l with
  | nil => simp at hv
  | cons r l ih =>
    obtain ⟨hr, hl⟩ := hl
    obtain ⟨hrl, hnd⟩ := nodup_cons.mp hnd
    by_cases hrv : id r = id v
    · have hun : unlink id pred setPred v (r :: l) = unlink id pred setPred v l := by
        simp [unlink, hrv]
      rw [hun, unlink_of_notMem hl (hrv ▸ hrl)]
      exact hl
    · have hvl : v ∈ l := by
        rcases mem_cons.mp hv with rfl | hv
        · exact absurd rfl hrv
        · exact hv
      have hun : unlink id pred setPred v (r :: l) = (if pred r = some (id v) then setPred r (pred v) else r) ::
            unlink id pred setPred v l := by
        simp [unlink, hrv]
      rw [hun]
      refine ⟨?_, ih hl hnd hvl⟩
      rw [head_unlink hid hl hnd hvl, ← hr]
      by_cases hp : pred r = some (id v)
      · rw [if_pos hp, if_pos hp, hpred]
      · rw [if_neg hp, if_neg hp]

end

end AsterDrive.Lineage
