import Mathlib.Data.Fintype.Card
import Mathlib.Data.List.Perm.Subperm
import Mathlib.Data.Set.Finite.Basic
import Mathlib.Logic.Relation
import Mathlib.Order.WellFounded
import AsterDrive.Lib.Lineage

/-!
# Forest — nodes that point at their parent

`parent i = some j` says that `j` stands directly above `i`. `Above` is the ancestor relation,
`AtOrAbove` its reflexive closure, and a parent function is `Acyclic` when no node is above itself;
where only finitely many nodes have a parent this is well-foundedness.

* `wellFounded_reparent`, `above_reparent`: hanging a set of nodes under one new parent that is not
  below any of them.
* `climb`: the walk from a node to the top of its tree, with as much fuel as there are rows.
-/

namespace AsterDrive.Forest

open Relation List Option

variable {ι ρ : Type*}

/-- `j` is the parent of `i`. -/
def ParentOf (parent : ι → Option ι) (j i : ι) : Prop := parent i = some j

/-- `a` is a proper ancestor of `b`. -/
def Above (parent : ι → Option ι) : ι → ι → Prop := TransGen (ParentOf parent)

def AtOrAbove (parent : ι → Option ι) : ι → ι → Prop := ReflTransGen (ParentOf parent)

/-- No node is above itself. -/
def Acyclic (parent : ι → Option ι) : Prop := ∀ i, ¬ Above parent i i

variable {parent parent' : ι → Option ι} {a b c i j : ι}

theorem AtOrAbove.refl : AtOrAbove parent a a := ReflTransGen.refl

theorem AtOrAbove.of_above (h : Above parent a b) : AtOrAbove parent a b := TransGen.to_reflTransGen h

theorem AtOrAbove.trans (h : AtOrAbove parent a b) (h' : AtOrAbove parent b c) :
    AtOrAbove parent a c := ReflTransGen.trans h h'

theorem atOrAbove_iff : AtOrAbove parent a b ↔ a = b ∨ Above parent a b := by
  unfold AtOrAbove Above
  rw [reflTransGen_iff_eq_or_transGen]
  exact or_congr_left eq_comm

theorem Above.of_parent (h : parent b = some a) : Above parent a b := TransGen.single h

theorem Above.trans (h : Above parent a b) (h' : Above parent b c) : Above parent a c := TransGen.trans h h'

theorem above_iff : Above parent a b ↔ ∃ p, parent b = some p ∧ AtOrAbove parent a p := by
  unfold Above
  rw [TransGen.tail'_iff]
  exact ⟨fun ⟨p, h, hp⟩ => ⟨p, hp, h⟩, fun ⟨p, hp, h⟩ => ⟨p, h, hp⟩⟩

theorem atOrAbove_total (ha : AtOrAbove parent a c) (hb : AtOrAbove parent b c) :
    AtOrAbove parent a b ∨ AtOrAbove parent b a := by
  have huniq : Relator.RightUnique (Function.swap (ParentOf parent)) := by
    intro i j k hj hk
    exact some.inj ((show parent i = some j from hj).symm.trans hk)
  have ha' := reflTransGen_swap.mpr ha
  have hb' := reflTransGen_swap.mpr hb
  rcases ReflTransGen.total_of_right_unique huniq ha' hb' with h | h
  · exact .inr (reflTransGen_swap.mp h)
  · exact .inl (reflTransGen_swap.mp h)

theorem Above.mono (hsub : ∀ i p, parent i = some p → parent' i = some p) (h : Above parent a b) :
    Above parent' a b := TransGen.mono (fun p i hp => hsub i p hp) _ _ h

theorem AtOrAbove.mono (hsub : ∀ i p, parent i = some p → parent' i = some p)
    (h : AtOrAbove parent a b) : AtOrAbove parent' a b :=
  ReflTransGen.mono (fun p i hp => hsub i p hp) _ _ h

theorem acyclic_of_wellFounded (h : WellFounded (ParentOf parent)) : Acyclic parent :=
  fun i hi => h.transGen.irrefl.irrefl i hi

theorem acyclic_of_rank {rank : ι → ℕ} (h : ∀ i p, parent i = some p → rank p < rank i) :
    Acyclic parent := by
  have hlt : ∀ {a b}, Above parent a b → rank a < rank b := by
    intro a b hab
    induction hab with
    | single hb => exact h _ _ hb
    | tail _ hb ih => exact ih.trans (h _ _ hb)
  exact fun i hi => lt_irrefl _ (hlt hi)

/-- Where finitely many nodes have a parent, an acyclic parent function is well-founded. -/
theorem wellFounded_of_acyclic (hfin : {i | (parent i).isSome}.Finite) (h : Acyclic parent) :
    WellFounded (ParentOf parent) := by
  let D := {i // (parent i).isSome}
  have : Finite D := hfin
  let r : D → D → Prop := fun x y => Above parent x.1 y.1
  have : IsTrans D r := ⟨fun x y z hxy hyz => Above.trans hxy hyz⟩
  have : Std.Irrefl r := ⟨fun x => h x.1⟩
  have hwf : WellFounded r := Finite.wellFounded_of_trans_of_irrefl r
  have hacc : ∀ d : D, Acc (ParentOf parent) d.1 := by
    intro d
    induction d using hwf.induction with
    | h d ih =>
      refine ⟨_, fun j hj => ?_⟩
      by_cases hsome : (parent j).isSome
      · exact ih ⟨j, hsome⟩ (Above.of_parent hj)
      · refine ⟨_, fun k hk => ?_⟩
        rw [show parent j = some k from hk] at hsome
        simp at hsome
  refine ⟨fun i => ?_⟩
  by_cases hsome : (parent i).isSome
  · exact hacc ⟨i, hsome⟩
  · refine ⟨_, fun k hk => ?_⟩
    rw [show parent i = some k from hk] at hsome
    simp at hsome

/-! ### Hanging nodes under a new parent -/

section Reparent

variable {S : ι → Prop} {target : Option ι}

theorem wellFounded_reparent (hwf : WellFounded (ParentOf parent)) (hS : ∀ i, S i → parent' i = target)
    (hrest : ∀ i, ¬ S i → parent' i = parent i)
    (hfree : ∀ k, target = some k → ∀ i, S i → ¬ AtOrAbove parent i k) :
    WellFounded (ParentOf parent') := by
  -- the way up from the target never meets a moved node, so it is the old one
  have hfixed : ∀ k, (∀ i, S i → ¬ AtOrAbove parent i k) → Acc (ParentOf parent') k := by
    intro k
    induction k using hwf.induction with
    | h k ih =>
      intro hk
      refine ⟨_, fun j hj => ?_⟩
      have hkS : ¬ S k := fun hs => hk k hs .refl
      have hj : parent k = some j := by
        rw [← hrest k hkS]
        exact hj
      exact ih j hj fun i hi hij => hk i hi (hij.trans (.of_above (.of_parent hj)))
  refine ⟨fun i => ?_⟩
  induction i using hwf.induction with
  | h i ih =>
    refine ⟨_, fun j hj => ?_⟩
    by_cases hi : S i
    · have hj : target = some j := (hS i hi).symm.trans hj
      exact hfixed j (hfree j hj)
    · exact ih j ((hrest i hi).symm.trans hj)

/-- A move makes the target and the nodes above it ancestors of what was moved, and no others. -/
theorem above_reparent (hS : ∀ i, S i → parent' i = target) (hrest : ∀ i, ¬ S i → parent' i = parent i)
    (hfree : ∀ k, target = some k → ∀ i, S i → ¬ AtOrAbove parent i k) (h : Above parent' a b) :
    Above parent a b ∨ ∃ k s, target = some k ∧ S s ∧ AtOrAbove parent a k ∧ AtOrAbove parent s b := by
  induction h with
  | @single b hb =>
    by_cases hs : S b
    · exact .inr ⟨a, b, (hS b hs).symm.trans hb, hs, .refl, .refl⟩
    · exact .inl (.of_parent ((hrest b hs).symm.trans hb))
  | @tail c b _ hb ih =>
    by_cases hs : S b
    · have hc : target = some c := (hS b hs).symm.trans hb
      rcases ih with hac | ⟨k, s, _, hs', _, hsc⟩
      · exact .inr ⟨c, b, hc, hs, .of_above hac, .refl⟩
      · exact absurd hsc (hfree c hc s hs')
    · have hb : parent b = some c := (hrest b hs).symm.trans hb
      rcases ih with hac | ⟨k, s, hk, hs', hak, hsc⟩
      · exact .inl (hac.trans (.of_parent hb))
      · exact .inr ⟨k, s, hk, hs', hak, hsc.trans (.of_above (.of_parent hb))⟩

end Reparent

/-! ### Walks through a table -/

section Walk

variable {lookup : ι → Option ρ} {up : ρ → Option ι} {r : ρ} {l : List ρ}

/-- The parent function of a table. -/
def parentIn (lookup : ι → Option ρ) (up : ρ → Option ι) (i : ι) : Option ι := (lookup i).bind up

theorem parentIn_of_lookup (h : lookup i = some r) : parentIn lookup up i = up r := by
  simp [parentIn, h]

/-- From a node to the top: the rows met on the way, until a row is missing or has no parent. -/
def climb (lookup : ι → Option ρ) (up : ρ → Option ι) : ℕ → Option ι → List ρ
  | 0, _ => []
  | _ + 1, none => []
  | n + 1, some i =>
    match lookup i with
    | none => []
    | some r => r :: climb lookup up n (up r)

example (n : ℕ) : climb lookup up (n + 1) none = [] := by
  unfold climb
  rfl

theorem climb_of_follows {n : ℕ} {start : Option ι} (h : Lineage.Follows lookup up start l) (hn : l.length ≤ n) :
    climb lookup up n start = l := by
  induction h generalizing n with
  | stop =>
    cases n with
    | zero | succ n => rfl
  | @visit i r l hr hl ih =>
    cases n with
    | zero =>
      rw [length_cons] at hn
      omega
    | succ n =>
      rw [length_cons] at hn
      unfold climb
      simp only [hr]
      rw [ih (by omega)]

theorem climb_cons {n : ℕ} {start : Option ι} (h : climb lookup up n start = r :: l) :
    ∃ m i, start = some i ∧ lookup i = some r ∧ climb lookup up m (up r) = l := by
  match n, start with
  | 0, _ | _ + 1, none => simp [climb] at h
  | m + 1, some i =>
    cases hi : lookup i with
    | none => simp [climb, hi] at h
    | some x =>
      simp only [climb, hi] at h
      obtain ⟨rfl, rfl⟩ := cons.inj h
      exact ⟨m, i, rfl, hi, rfl⟩

theorem mem_climb {n : ℕ} (h : r ∈ climb lookup up n (some i)) :
    ∃ j, lookup j = some r ∧ AtOrAbove (parentIn lookup up) j i := by
  induction n generalizing i with
  | zero => simp [climb] at h
  | succ n ih =>
    unfold climb at h
    cases hi : lookup i with
    | none => simp [hi] at h
    | some x =>
      simp only [hi, mem_cons] at h
      rcases h with rfl | h
      · exact ⟨i, hi, .refl⟩
      · cases hx : up x with
        | none =>
          rw [hx] at h
          cases n <;> simp [climb] at h
        | some k =>
          rw [hx] at h
          obtain ⟨j, hj, hjk⟩ := ih h
          exact ⟨j, hj, hjk.trans (.of_above (.of_parent ((parentIn_of_lookup hi).trans hx)))⟩

/-- With as much fuel as there are nodes the walk meets every ancestor. `seen` are the nodes already
passed: all of them lie below the current one, so none of them comes again. -/
theorem climb_complete {nodes seen : List ι} {n : ℕ} (hac : Acyclic (parentIn lookup up))
    (hnodes : ∀ i, (lookup i).isSome → i ∈ nodes) (hnodup : seen.Nodup) (hsub : seen ⊆ nodes)
    (hbelow : ∀ s ∈ seen, Above (parentIn lookup up) i s) (hlen : nodes.length ≤ n + seen.length)
    (hj : lookup j = some r) (hji : AtOrAbove (parentIn lookup up) j i) :
    r ∈ climb lookup up n (some i) := by
  have hsome : (lookup i).isSome := by
    rcases atOrAbove_iff.mp hji with rfl | habove
    · simp [hj]
    · obtain ⟨p, hp, -⟩ := above_iff.mp habove
      rw [parentIn, bind_eq_some_iff] at hp
      obtain ⟨x, hx, -⟩ := hp
      simp [hx]
  have hnot : i ∉ seen := fun hi => hac i (hbelow i hi)
  induction n generalizing i seen with
  | zero =>
    have hperm : seen.Perm nodes := (hnodup.subperm hsub).perm_of_length_le (by omega)
    exact absurd (hperm.mem_iff.mpr (hnodes i hsome)) hnot
  | succ n ih =>
    obtain ⟨x, hx⟩ := isSome_iff_exists.mp hsome
    unfold climb
    simp only [hx, mem_cons]
    rcases atOrAbove_iff.mp hji with rfl | habove
    · exact .inl (some.inj (hj.symm.trans hx))
    right
    obtain ⟨p, hp, hjp⟩ := above_iff.mp habove
    have hup : up x = some p := (parentIn_of_lookup hx).symm.trans hp
    rw [hup]
    have hbelow' : ∀ s ∈ i :: seen, Above (parentIn lookup up) p s := by
      intro s hs
      rcases mem_cons.mp hs with rfl | hs
      · exact .of_parent hp
      · exact Above.trans (.of_parent hp) (hbelow s hs)
    have hnodup' : (i :: seen).Nodup := nodup_cons.mpr ⟨hnot, hnodup⟩
    refine ih hnodup' ?_ hbelow' ?_ hjp ?_ ?_
    · exact cons_subset.mpr ⟨hnodes i hsome, hsub⟩
    · simp only [length_cons]
      omega
    · rcases atOrAbove_iff.mp hjp with rfl | habove'
      · simp [hj]
      · obtain ⟨q, hq, -⟩ := above_iff.mp habove'
        rw [parentIn, bind_eq_some_iff] at hq
        obtain ⟨y, hy, -⟩ := hq
        simp [hy]
    · exact fun hps => hac p (hbelow' p hps)

/-- A walk that ends at a root has met exactly the node it started from and its ancestors. -/
theorem mem_follows (h : Lineage.Follows lookup up (some i) l) :
    (∀ j, AtOrAbove (parentIn lookup up) j i → ∃ x ∈ l, lookup j = some x) ∧
      ∀ x ∈ l, ∃ j, lookup j = some x ∧ AtOrAbove (parentIn lookup up) j i := by
  generalize hs : some i = start at h
  induction h generalizing i with
  | stop => cases hs
  | @visit k x l hx hl ih =>
    obtain rfl : i = k := some.inj hs
    constructor
    · intro j hj
      rcases atOrAbove_iff.mp hj with rfl | habove
      · exact ⟨x, mem_cons_self, hx⟩
      · obtain ⟨p, hp, hjp⟩ := above_iff.mp habove
        have hup : some p = up x := ((parentIn_of_lookup hx).symm.trans hp).symm
        obtain ⟨y, hy, hjy⟩ := (ih hup).1 j hjp
        exact ⟨y, mem_cons_of_mem _ hy, hjy⟩
    · intro y hy
      rcases mem_cons.mp hy with rfl | hy
      · exact ⟨i, hx, .refl⟩
      · cases hup : up x with
        | none =>
          rw [hup] at hl
          cases hl
          cases hy
        | some p =>
          obtain ⟨j, hj, hjp⟩ := (ih hup.symm).2 y hy
          exact ⟨j, hj, hjp.trans (.of_above (.of_parent ((parentIn_of_lookup hx).trans hup)))⟩

end Walk

end AsterDrive.Forest
