import Mathlib.Data.List.Perm.Subperm
import Mathlib.Data.Set.Card
import AsterDrive.Lib.Batches

/-!
# Levels — breadth-first search level by level

`Within edge roots n x` says that `x` is `n` edges away from a root, `Level edge roots n x` that it is no nearer. A search
that keeps what it has seen and looks at the new nodes of its frontier finds one level a round (`Explored`), whatever the
frontier repeats and wherever edges lead back; after a round without new nodes it has seen every node that is reached.
-/

namespace AsterDrive.Levels

variable {κ : Type*} {edge : κ → κ → Prop} {roots : List κ} {n m : ℕ} {x y : κ}

inductive Within (edge : κ → κ → Prop) (roots : List κ) : ℕ → κ → Prop
  | root {x : κ} (h : x ∈ roots) : Within edge roots 0 x
  | next {n : ℕ} {x y : κ} (h : Within edge roots n x) (hedge : edge x y) : Within edge roots (n + 1) y

/-- Reached from a root. -/
def Reached (edge : κ → κ → Prop) (roots : List κ) (x : κ) : Prop := ∃ n, Within edge roots n x

/-- Reached after `n` edges and not before. -/
def Level (edge : κ → κ → Prop) (roots : List κ) (n : ℕ) (x : κ) : Prop :=
  Within edge roots n x ∧ ∀ m, m < n → ¬ Within edge roots m x

theorem within_zero : Within edge roots 0 x ↔ x ∈ roots := by
  constructor
  · intro h
    cases h with
    | root h => exact h
  · exact .root

theorem within_succ : Within edge roots (n + 1) y ↔ ∃ x, Within edge roots n x ∧ edge x y := by
  constructor
  · intro h
    cases h with
    | next h hedge => exact ⟨_, h, hedge⟩
  · rintro ⟨x, h, hedge⟩
    exact .next h hedge

theorem exists_level (h : Within edge roots n x) : ∃ m, m ≤ n ∧ Level edge roots m x := by
  induction n using Nat.strongRecOn with
  | ind n ih =>
    by_cases hnear : ∃ m, m < n ∧ Within edge roots m x
    · obtain ⟨m, hlt, hm⟩ := hnear
      obtain ⟨k, hk, hlevel⟩ := ih m hlt hm
      exact ⟨k, by omega, hlevel⟩
    · exact ⟨n, Nat.le_refl n, h, fun m hlt hm => hnear ⟨m, hlt, hm⟩⟩

theorem reached_iff : Reached edge roots x ↔ ∃ n, Level edge roots n x := by
  constructor
  · rintro ⟨n, h⟩
    obtain ⟨m, -, hlevel⟩ := exists_level h
    exact ⟨m, hlevel⟩
  · rintro ⟨n, h, -⟩
    exact ⟨n, h⟩

theorem Level.pred (h : Level edge roots (n + 1) y) : ∃ x, Level edge roots n x ∧ edge x y := by
  obtain ⟨x, hx, hedge⟩ := (within_succ).mp h.1
  refine ⟨x, ⟨hx, fun m hlt hm => ?_⟩, hedge⟩
  exact h.2 (m + 1) (by omega) (.next hm hedge)

theorem level_empty (h : ∀ x, ¬ Level edge roots n x) (hle : n ≤ m) : ∀ x, ¬ Level edge roots m x := by
  induction m, hle using Nat.le_induction with
  | base => exact h
  | succ m hle ih =>
    intro y hy
    obtain ⟨x, hx, -⟩ := hy.pred
    exact ih x hx

/-! ### The search -/

section Search

variable {ids frontier : List κ}

/-- What was seen, and what is to be looked at, after `n` rounds. -/
structure Explored (edge : κ → κ → Prop) (roots : List κ) (n : ℕ) (ids frontier : List κ) : Prop where
  nodup : ids.Nodup
  seen : ∀ x, x ∈ ids ↔ ∃ m, m < n ∧ Level edge roots m x
  sound : ∀ x ∈ frontier, Within edge roots n x
  complete : ∀ x, Level edge roots n x → x ∈ frontier

theorem Explored.start : Explored edge roots 0 [] roots where
  nodup := List.nodup_nil
  seen x := by simp
  sound x hx := .root hx
  complete x hx := (within_zero).mp hx.1

theorem Explored.reached (h : Explored edge roots n ids frontier) (hx : x ∈ ids) : Reached edge roots x := by
  obtain ⟨m, -, hm⟩ := (h.seen x).mp hx
  exact ⟨m, hm.1⟩

theorem Explored.length_le (h : Explored edge roots n ids frontier) {world : List κ}
    (hworld : ∀ x, Reached edge roots x → x ∈ world) : ids.length ≤ world.length :=
  (h.nodup.subperm fun x hx => hworld x (h.reached hx)).length_le

variable [LinearOrder κ]

/-- The nodes of the frontier that were not seen. -/
def fresh (ids frontier : List κ) : List κ := (Batches.sortDedup frontier).filter fun x => x ∉ ids

theorem mem_fresh : x ∈ fresh ids frontier ↔ x ∈ frontier ∧ x ∉ ids := by
  unfold fresh
  rw [List.mem_filter, Batches.mem_sortDedup, decide_eq_true_eq]

theorem nodup_fresh : (fresh ids frontier).Nodup := Batches.nodup_sortDedup.filter _

/-- **The new nodes of a round are a level.** -/
theorem Explored.mem_fresh (h : Explored edge roots n ids frontier) : x ∈ fresh ids frontier ↔ Level edge roots n x := by
  rw [Levels.mem_fresh]
  constructor
  · rintro ⟨hx, hnew⟩
    refine ⟨h.sound x hx, fun m hlt hm => ?_⟩
    obtain ⟨k, hle, hlevel⟩ := exists_level hm
    exact hnew ((h.seen x).mpr ⟨k, by omega, hlevel⟩)
  · intro hlevel
    refine ⟨h.complete x hlevel, fun hold => ?_⟩
    obtain ⟨m, hlt, hm⟩ := (h.seen x).mp hold
    exact hlevel.2 m hlt hm.1

theorem Explored.disjoint : ∀ x ∈ ids, x ∉ fresh ids frontier := fun _ hx hnew => (Levels.mem_fresh.mp hnew).2 hx

/-- **One round.** -/
theorem Explored.next (h : Explored edge roots n ids frontier) {children : List κ}
    (hchildren : ∀ y, y ∈ children ↔ ∃ x ∈ fresh ids frontier, edge x y) :
    Explored edge roots (n + 1) (ids ++ fresh ids frontier) children where
  nodup := by
    refine List.nodup_append.mpr ⟨h.nodup, nodup_fresh, ?_⟩
    rintro x hx y hy rfl
    exact Explored.disjoint x hx hy
  seen x := by
    rw [List.mem_append, h.seen, h.mem_fresh]
    constructor
    · rintro (⟨m, hlt, hm⟩ | hlevel)
      · exact ⟨m, by omega, hm⟩
      · exact ⟨n, by omega, hlevel⟩
    · rintro ⟨m, hlt, hm⟩
      by_cases hlast : m = n
      · exact .inr (hlast ▸ hm)
      · exact .inl ⟨m, by omega, hm⟩
  sound y hy := by
    obtain ⟨x, hx, hedge⟩ := (hchildren y).mp hy
    exact .next (h.mem_fresh.mp hx).1 hedge
  complete y hy := by
    obtain ⟨x, hx, hedge⟩ := hy.pred
    exact (hchildren y).mpr ⟨x, h.mem_fresh.mpr hx, hedge⟩

theorem Explored.done (h : Explored edge roots n ids frontier) (hnone : fresh ids frontier = []) :
    x ∈ ids ↔ Reached edge roots x := by
  have hempty : ∀ y, ¬ Level edge roots n y := by
    intro y hy
    have hmem := h.mem_fresh.mpr hy
    rw [hnone] at hmem
    cases hmem
  rw [h.seen, reached_iff]
  constructor
  · rintro ⟨m, -, hm⟩
    exact ⟨m, hm⟩
  · rintro ⟨m, hm⟩
    refine ⟨m, ?_, hm⟩
    by_contra hge
    exact level_empty hempty (by omega) x hm

end Search

/-! ### Sizes -/

theorem ncard_of_nodup {l : List κ} (hnodup : l.Nodup) {s : Set κ} (hmem : ∀ x, x ∈ l ↔ x ∈ s) : s.ncard = l.length := by
  classical
  have hset : s = (l.toFinset : Set κ) := by
    ext x
    rw [List.coe_toFinset]
    exact (hmem x).symm
  rw [hset, Set.ncard_coe_finset, List.toFinset_card_of_nodup hnodup]

end AsterDrive.Levels
