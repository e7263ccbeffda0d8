import Mathlib.Data.Finset.Max
import Mathlib.Order.Bounds.Basic
import AsterDrive.Lib.Batches

/-!
# Endpoints — the greatest solution of a predicate on intervals

A predicate that is built from comparisons with finitely many limits is constant on the intervals that end at them. Its
greatest solution is then an end, and it is found by trying the ends from the greatest one down (`find_descending`).
-/

namespace AsterDrive.Endpoints

open List

variable {α : Type*} [LinearOrder α]

/-- No end lies between the two. -/
def Agree (endpoints : List α) (s t : α) : Prop := ∀ x ∈ endpoints, s ≤ x ↔ t ≤ x

def descending (endpoints : List α) : List α := (Batches.sortDedup endpoints).reverse

variable {endpoints : List α} {s t m top bottom : α} {p : α → Bool}

theorem Agree.symm (h : Agree endpoints s t) : Agree endpoints t s := fun x hx => (h x hx).symm

theorem exists_agree (htop : top ∈ endpoints) (hs : s ≤ top) : ∃ e ∈ endpoints, s ≤ e ∧ Agree endpoints s e := by
  have hnonempty : (endpoints.toFinset.filter (s ≤ ·)).Nonempty :=
    ⟨top, Finset.mem_filter.mpr ⟨mem_toFinset.mpr htop, hs⟩⟩
  obtain ⟨e, he, hleast⟩ := Finset.exists_min_image _ id hnonempty
  obtain ⟨hmem, hse⟩ := Finset.mem_filter.mp he
  refine ⟨e, mem_toFinset.mp hmem, hse, fun x hx => ⟨fun hsx => ?_, hse.trans⟩⟩
  exact hleast x (Finset.mem_filter.mpr ⟨mem_toFinset.mpr hx, hsx⟩)

theorem mem_descending {x : α} : x ∈ descending endpoints ↔ x ∈ endpoints := by
  unfold descending
  rw [mem_reverse, Batches.mem_sortDedup]

theorem descending_pairwise : (descending endpoints).Pairwise (· > ·) :=
  pairwise_reverse.mpr Batches.sortDedup_ascending

theorem find_greatest {l : List α} (hl : l.Pairwise (· > ·)) :
    l.find? p = some m ↔ m ∈ l ∧ p m = true ∧ ∀ x ∈ l, p x = true → x ≤ m := by
  induction l with
  | nil => simp
  | cons a rest ih =>
    obtain ⟨hfirst, hrest⟩ := pairwise_cons.mp hl
    by_cases hp : p a = true
    · rw [find?_cons_of_pos hp]
      constructor
      · rintro ⟨⟩
        refine ⟨mem_cons_self, hp, fun x hx _ => ?_⟩
        rcases mem_cons.mp hx with rfl | hmem
        · exact le_refl _
        · exact le_of_lt (hfirst x hmem)
      · rintro ⟨hm, -, hmost⟩
        rcases mem_cons.mp hm with rfl | hmem
        · rfl
        · exact absurd (hmost a mem_cons_self hp) (not_le_of_gt (hfirst m hmem))
    · rw [find?_cons_of_neg hp, ih hrest]
      constructor
      · rintro ⟨hm, hpm, hmost⟩
        refine ⟨mem_cons_of_mem _ hm, hpm, fun x hx hpx => ?_⟩
        rcases mem_cons.mp hx with rfl | hmem
        · exact absurd hpx hp
        · exact hmost x hmem hpx
      · rintro ⟨hm, hpm, hmost⟩
        rcases mem_cons.mp hm with rfl | hmem
        · exact absurd hpm hp
        · exact ⟨hmem, hpm, fun x hx => hmost x (mem_cons_of_mem _ hx)⟩

/-- **The first end that is a solution is the greatest solution.** -/
theorem find_descending (htop : top ∈ endpoints) (hrange : ∀ x ∈ endpoints, bottom ≤ x ∧ x ≤ top)
    (hconst : ∀ s t, bottom ≤ s → s ≤ t → Agree endpoints s t → p s = p t) :
    (descending endpoints).find? p = some m ↔ IsGreatest {s | (bottom ≤ s ∧ s ≤ top) ∧ p s = true} m := by
  have hend : ∀ s, bottom ≤ s → s ≤ top → p s = true → ∃ e ∈ endpoints, s ≤ e ∧ p e = true := by
    intro s hlow hhigh hp
    obtain ⟨e, he, hse, hagree⟩ := exists_agree htop hhigh
    rw [hconst s e hlow hse hagree] at hp
    exact ⟨e, he, hse, hp⟩
  rw [find_greatest descending_pairwise, mem_descending]
  constructor
  · rintro ⟨hm, hp, hmost⟩
    refine ⟨⟨hrange m hm, hp⟩, fun s ⟨⟨hlow, hhigh⟩, hps⟩ => ?_⟩
    obtain ⟨e, he, hse, hpe⟩ := hend s hlow hhigh hps
    exact hse.trans (hmost e ((mem_descending).mpr he) hpe)
  · rintro ⟨⟨⟨hlow, hhigh⟩, hp⟩, hmost⟩
    obtain ⟨e, he, hme, hpe⟩ := hend m hlow hhigh hp
    obtain rfl := le_antisymm hme (hmost ⟨hrange e he, hpe⟩)
    exact ⟨he, hp, fun x hx hpx => hmost ⟨hrange x ((mem_descending).mp hx), hpx⟩⟩

end AsterDrive.Endpoints
