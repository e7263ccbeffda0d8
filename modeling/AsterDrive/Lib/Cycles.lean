import AsterDrive.Lib.Forest

/-!
# Cycles — parent pointers that run in circles

The walk up from a node (`Walk`) ends at a node without a parent or comes back to a node that it has met. A circle is
named by its least node: `Represents parent r` says that `r` is one. A node leads to one such node at most
(`LeadsTo.unique`), and to none if its walk ends (`LeadsTo.not_topsOut`).
-/

namespace AsterDrive.Forest

open Relation

variable {ι : Type*} {parent : ι → Option ι} {a b i r r' x y : ι} {start stop : Option ι} {path : List ι}

/-- The walk up from `start` meets the nodes of `path` and arrives at `stop`. -/
inductive Walk (parent : ι → Option ι) : Option ι → List ι → Option ι → Prop
  | nil (start : Option ι) : Walk parent start [] start
  | cons (i : ι) {path : List ι} {stop : Option ι} (h : Walk parent (parent i) path stop) :
      Walk parent (some i) (i :: path) stop

/-- A node without a parent stands above. -/
def TopsOut (parent : ι → Option ι) (a : ι) : Prop := ∃ b, AtOrAbove parent b a ∧ parent b = none

/-- The least node of a circle. -/
structure Represents [LE ι] (parent : ι → Option ι) (r : ι) : Prop where
  circle : Above parent r r
  least : ∀ y, AtOrAbove parent y r → r ≤ y

/-- The walk from `a` runs into the circle of `r`. -/
def LeadsTo [LE ι] (parent : ι → Option ι) (a r : ι) : Prop := AtOrAbove parent r a ∧ Represents parent r

theorem Walk.append {mid : Option ι} {path' : List ι} (h : Walk parent start path mid)
    (h' : Walk parent mid path' stop) : Walk parent start (path ++ path') stop := by
  induction h with
  | nil => exact h'
  | cons i _ ih => exact .cons i (ih h')

theorem Walk.snoc (h : Walk parent start path (some i)) : Walk parent start (path ++ [i]) (parent i) :=
  h.append (.cons i (.nil _))

theorem Walk.from_mem {front rest : List ι} (h : Walk parent start (front ++ x :: rest) stop) :
    Walk parent (parent x) rest stop := by
  induction front generalizing start with
  | nil =>
    cases h with
    | cons _ h => exact h
  | cons y front ih =>
    cases h with
    | cons _ h => exact ih h

theorem Walk.to_mem {front rest : List ι} (h : Walk parent start (front ++ x :: rest) stop) :
    Walk parent start front (some x) := by
  induction front generalizing start with
  | nil =>
    cases h with
    | cons _ _ => exact .nil _
  | cons y front ih =>
    cases h with
    | cons _ h => exact .cons y (ih h)

theorem Walk.exists_start (h : Walk parent start path (some b)) : ∃ a, start = some a ∧ AtOrAbove parent b a := by
  generalize hstop : some b = stop at h
  induction h with
  | nil => exact ⟨b, hstop.symm, .refl⟩
  | cons i _ ih => exact ⟨i, rfl, .of_above (above_iff.mpr (ih hstop))⟩

theorem Walk.above (h : Walk parent start path (some b)) (hx : x ∈ path) : Above parent b x := by
  obtain ⟨front, rest, rfl⟩ := List.append_of_mem hx
  exact above_iff.mpr h.from_mem.exists_start

theorem Walk.topsOut (h : Walk parent start path none) : ∀ a, start = some a → TopsOut parent a := by
  generalize hstop : none = stop at h
  induction h with
  | nil =>
    intro a ha
    rw [← hstop] at ha
    cases ha
  | cons i _ ih =>
    intro a ha
    cases ha
    rcases hp : parent i with _ | p
    · exact ⟨i, .refl, hp⟩
    · obtain ⟨b, hb, hnone⟩ := ih hstop p hp
      exact ⟨b, .of_above (above_iff.mpr ⟨p, hp, hb⟩), hnone⟩

theorem Walk.topsOut_mem (h : Walk parent start path none) (hx : x ∈ path) : TopsOut parent x := by
  obtain ⟨front, rest, rfl⟩ := List.append_of_mem hx
  exact (Walk.cons x h.from_mem).topsOut x rfl

theorem Walk.mem_circle (h : Walk parent (parent i) path (some i)) (hy : AtOrAbove parent y i) : y ∈ i :: path := by
  induction hy using ReflTransGen.head_induction_on with
  | refl => exact List.mem_cons_self
  | @head y z hp _ ih =>
    obtain ⟨front, rest, hsplit⟩ := List.append_of_mem ih
    have hwalk : Walk parent (parent z) rest (some i) := by
      have hall : Walk parent (some i) (front ++ z :: rest) (some i) := hsplit ▸ Walk.cons i h
      exact hall.from_mem
    rw [show parent z = some y from hp] at hwalk
    cases hwalk with
    | nil => exact List.mem_cons_self
    | cons _ _ =>
      rw [hsplit]
      simp

theorem atOrAbove_of_circle (h : Above parent a a) (hb : AtOrAbove parent b a) : AtOrAbove parent a b := by
  induction hb using ReflTransGen.head_induction_on with
  | refl => exact .refl
  | @head b z hp _ ih =>
    have habove : Above parent a z := by
      rcases atOrAbove_iff.mp ih with heq | habove
      · rw [← heq]
        exact h
      · exact habove
    obtain ⟨p, hz, hap⟩ := above_iff.mp habove
    rw [show parent z = some b from hp] at hz
    cases hz
    exact hap

theorem circle_of_atOrAbove (h : Above parent a a) (hb : AtOrAbove parent b a) : Above parent b b :=
  TransGen.trans_left (TransGen.trans_right hb h) (atOrAbove_of_circle h hb)

theorem LeadsTo.not_topsOut [LE ι] (h : LeadsTo parent a r) : ¬ TopsOut parent a := by
  rintro ⟨b, hb, hnone⟩
  obtain ⟨hr, hrep⟩ := h
  have habove : ∃ c, Above parent c b := by
    rcases atOrAbove_total hb hr with hbr | hrb
    · exact ⟨b, circle_of_atOrAbove hrep.circle hbr⟩
    · rcases atOrAbove_iff.mp hrb with heq | habove
      · exact ⟨r, heq ▸ hrep.circle⟩
      · exact ⟨r, habove⟩
  obtain ⟨c, hc⟩ := habove
  obtain ⟨p, hp, -⟩ := above_iff.mp hc
  rw [hnone] at hp
  cases hp

theorem Represents.unique [PartialOrder ι] (h : Represents parent r) (h' : Represents parent r')
    (habove : AtOrAbove parent r r') : r = r' :=
  le_antisymm (h.least r' (atOrAbove_of_circle h'.circle habove)) (h'.least r habove)

theorem LeadsTo.unique [PartialOrder ι] (h : LeadsTo parent a r) (h' : LeadsTo parent a r') : r = r' := by
  rcases atOrAbove_total h.1 h'.1 with habove | habove
  · exact h.2.unique h'.2 habove
  · exact (h'.2.unique h.2 habove).symm

theorem exists_leadsTo [LinearOrder ι] [WellFoundedLT ι] (h : Above parent a a) :
    ∃ r, LeadsTo parent a r ∧ AtOrAbove parent a r := by
  let above : Set ι := {y | AtOrAbove parent y a}
  have hne : above.Nonempty := ⟨a, .refl⟩
  have hr : AtOrAbove parent (WellFounded.min wellFounded_lt above hne) a := WellFounded.min_mem _ above hne
  refine ⟨_, ⟨hr, circle_of_atOrAbove h hr, fun y hy => ?_⟩, atOrAbove_of_circle h hr⟩
  exact not_lt.mp (WellFounded.not_lt_min wellFounded_lt above (hy.trans hr))

/-- **A walk that comes back**: what it met leads to the least node since then. -/
theorem Walk.leadsTo [LE ι] {front rest : List ι} (h : Walk parent start (front ++ i :: rest) (some i))
    (hr : r ∈ i :: rest) (hleast : ∀ y ∈ i :: rest, r ≤ y) (hx : x ∈ front ++ i :: rest) : LeadsTo parent x r := by
  have hcircle : Above parent i i := h.above (by simp)
  have hri : AtOrAbove parent r i := by
    obtain ⟨before, later, hsplit⟩ := List.append_of_mem hr
    have hwalk : Walk parent (some i) (before ++ r :: later) (some i) := hsplit ▸ .cons i h.from_mem
    obtain ⟨a, ha, hra⟩ := hwalk.to_mem.exists_start
    cases ha
    exact hra
  refine ⟨hri.trans (.of_above (h.above hx)), circle_of_atOrAbove hcircle hri, fun y hy => ?_⟩
  exact hleast y (h.from_mem.mem_circle (hy.trans hri))

end AsterDrive.Forest
