import Mathlib.Data.List.Sort
import Mathlib.Order.Basic

/-!
# Keyset — pages of a table in key order

`page key after limit rows` is `SELECT .. WHERE key > after ORDER BY key LIMIT limit`. Reading pages one after the
other, each behind the last row of the one before, meets every row once: a page is empty only when no row is left
(`page_eq_nil`), and what a page leaves out lies behind its last row (`mem_page_of_le_last`).

`scan` is the loop that reads and treats page by page, cut off after a number of pages. `scan_induct` is its invariant
rule; where the pages are treated row by row it is the loop over the rows in key order (`scan_rows`).
-/

namespace AsterDrive.Keyset

open List Option

variable {α κ : Type*} [LinearOrder κ] {key : α → κ} {after : Option κ} {limit : ℕ} {rows : List α} {x y : α}

/-- The row lies behind the cursor. -/
def isBehind (key : α → κ) (after : Option κ) (x : α) : Bool := ∀ k ∈ after, k < key x

/-- The rows behind the cursor, in key order. -/
def behind (key : α → κ) (after : Option κ) (rows : List α) : List α :=
  (rows.filter (isBehind key after)).insertionSort fun x y => key x ≤ key y

def page (key : α → κ) (after : Option κ) (limit : ℕ) (rows : List α) : List α := (behind key after rows).take limit

theorem mem_behind : x ∈ behind key after rows ↔ x ∈ rows ∧ isBehind key after x := by
  unfold behind
  rw [mem_insertionSort, mem_filter]

theorem exists_mem_behind {k : κ} : (∃ x ∈ behind key after rows, key x = k) ↔
    (∃ x ∈ rows, key x = k) ∧ ∀ k' ∈ after, k' < k := by
  simp only [mem_behind, isBehind, decide_eq_true_eq]
  constructor
  · rintro ⟨x, ⟨hx, hbehind⟩, rfl⟩
    exact ⟨⟨x, hx, rfl⟩, hbehind⟩
  · rintro ⟨⟨x, hx, rfl⟩, hbehind⟩
    exact ⟨x, ⟨hx, hbehind⟩, rfl⟩

theorem behind_ascending : (behind key after rows).Pairwise fun x y => key x ≤ key y := by
  exact pairwise_insertionSort _ _

theorem mem_of_mem_page (h : x ∈ page key after limit rows) : x ∈ rows ∧ isBehind key after x :=
  (mem_behind).mp (mem_of_mem_take h)

theorem page_eq_nil (hlimit : 0 < limit) :
    page key after limit rows = [] ↔ ∀ x ∈ rows, isBehind key after x = false := by
  unfold page
  rw [take_eq_nil_iff]
  constructor
  · intro h x hx
    have hnil : behind key after rows = [] := h.resolve_left (by omega)
    rw [Bool.eq_false_iff]
    intro hbehind
    have hmem : x ∈ behind key after rows := (mem_behind).mpr ⟨hx, hbehind⟩
    rw [hnil] at hmem
    cases hmem
  · intro h
    right
    refine eq_nil_iff_forall_not_mem.mpr fun x hx => ?_
    obtain ⟨hrows, hbehind⟩ := (mem_behind).mp hx
    rw [h x hrows] at hbehind
    cases hbehind

theorem page_sublist : (page key after limit rows).Sublist (behind key after rows) := take_sublist _ _

theorem nodup_behind_keys (hdistinct : (rows.map key).Nodup) : ((behind key after rows).map key).Nodup := by
  have hfilter : ((rows.filter (isBehind key after)).map key).Nodup := hdistinct.sublist (List.filter_sublist.map key)
  exact ((perm_insertionSort _ _).map key).nodup_iff.mpr hfilter

theorem nodup_page (hdistinct : (rows.map key).Nodup) : ((page key after limit rows).map key).Nodup :=
  (nodup_behind_keys hdistinct).sublist ((page_sublist).map key)

theorem le_last (hlast : (page key after limit rows).getLast? = some y) (hx : x ∈ page key after limit rows) :
    key x ≤ key y := by
  have hsorted : (page key after limit rows).Pairwise fun x y => key x ≤ key y := (behind_ascending).sublist page_sublist
  obtain ⟨front, hfront⟩ := getLast?_eq_some_iff.mp hlast
  rw [hfront] at hsorted hx
  rcases mem_append.mp hx with hx | hx
  · exact (pairwise_append.mp hsorted).2.2 x hx y (mem_singleton_self y)
  · rw [mem_singleton.mp hx]

/-- With distinct keys, the rows behind the cursor up to the last row of the page are the page. -/
theorem mem_page_of_le_last (hdistinct : ∀ x ∈ rows, ∀ y ∈ rows, key x = key y → x = y)
    (hlast : (page key after limit rows).getLast? = some y) (hx : x ∈ rows) (hbehind : isBehind key after x)
    (hle : key x ≤ key y) : x ∈ page key after limit rows := by
  have hmem : x ∈ behind key after rows := (mem_behind).mpr ⟨hx, hbehind⟩
  have hy : y ∈ page key after limit rows := mem_of_getLast? hlast
  rw [← take_append_drop limit (behind key after rows)] at hmem
  rcases mem_append.mp hmem with htake | hdrop
  · exact htake
  · have hsorted : (behind key after rows).Pairwise fun x y => key x ≤ key y := behind_ascending
    rw [← take_append_drop limit (behind key after rows)] at hsorted
    have hge : key y ≤ key x := (pairwise_append.mp hsorted).2.2 y hy x hdrop
    rw [hdistinct x hx y (mem_of_mem_page hy).1 (le_antisymm hle hge)]
    exact hy

theorem nodup_behind (hnodup : (rows.map key).Nodup) : (behind key after rows).Nodup := by
  have hfilter : (rows.filter (isBehind key after)).Nodup := hnodup.of_map.filter _
  exact (perm_insertionSort _ _).nodup_iff.mpr hfilter

theorem isBehind_some {k : κ} : isBehind key (some k) x ↔ k < key x := by
  simp [isBehind]

theorem mem_behind_none : x ∈ behind key none rows ↔ x ∈ rows := by
  rw [mem_behind]
  simp [isBehind]

theorem behind_strict (hnodup : (rows.map key).Nodup) : (behind key after rows).Pairwise fun x y => key x < key y := by
  refine ((behind_ascending).and (nodup_behind hnodup)).imp_of_mem fun hx hy h => lt_of_le_of_ne h.1 fun heq => h.2 ?_
  exact inj_on_of_nodup_map hnodup ((mem_behind).mp hx).1 ((mem_behind).mp hy).1 heq

/-- **A page, and then what lies behind its last row.** -/
theorem behind_split (hnodup : (rows.map key).Nodup) (hlast : (page key after limit rows).getLast? = some y) :
    behind key after rows = page key after limit rows ++ behind key (some (key y)) rows := by
  have hdistinct : ∀ x ∈ rows, ∀ z ∈ rows, key x = key z → x = z := fun x hx z hz => inj_on_of_nodup_map hnodup hx hz
  have hy := mem_of_mem_page (mem_of_getLast? hlast)
  have hbehind : ∀ z ∈ behind key (some (key y)) rows, key y < key z :=
    fun z hz => (isBehind_some).mp ((mem_behind).mp hz).2
  have hmem : ∀ z, z ∈ page key after limit rows ++ behind key (some (key y)) rows ↔ z ∈ behind key after rows := by
    intro z
    rw [mem_append]
    constructor
    · rintro (hz | hz)
      · exact (page_sublist).subset hz
      · refine (mem_behind).mpr ⟨((mem_behind).mp hz).1, ?_⟩
        have hafter : ∀ k ∈ after, k < key y := by simpa [isBehind] using hy.2
        unfold isBehind
        rw [decide_eq_true_eq]
        exact fun k hk => (hafter k hk).trans (hbehind z hz)
    · intro hz
      obtain ⟨hrow, hb⟩ := (mem_behind).mp hz
      rcases le_or_gt (key z) (key y) with hle | hlt
      · exact .inl (mem_page_of_le_last hdistinct hlast hrow hb hle)
      · exact .inr ((mem_behind).mpr ⟨hrow, (isBehind_some).mpr hlt⟩)
  have hnodup' : (page key after limit rows ++ behind key (some (key y)) rows).Nodup := by
    refine nodup_append.mpr ⟨(nodup_behind hnodup).sublist page_sublist, nodup_behind hnodup, ?_⟩
    rintro x hx z hz rfl
    exact absurd (hbehind x hz) (not_lt_of_ge (le_last hlast hx))
  refine Perm.eq_of_pairwise (fun x z hx hz => ?_) behind_ascending ?_
    ((perm_ext_iff_of_nodup (nodup_behind hnodup) hnodup').mpr fun z => (hmem z).symm)
  · intro hle hge
    exact hdistinct x ((mem_behind).mp hx).1 z ((mem_behind).mp ((hmem z).mp hz)).1 (le_antisymm hle hge)
  · refine pairwise_append.mpr ⟨(behind_ascending).sublist page_sublist, behind_ascending, fun x hx z hz => ?_⟩
    exact (le_last hlast hx).trans (hbehind z hz).le

/-! ### Fetching one row more than the page takes -/

theorem take_page {m n : ℕ} (h : m ≤ n) : (page key after n rows).take m = page key after m rows := by
  unfold page
  rw [take_take, min_eq_left h]

theorem overfetch_more {n : ℕ} (hnodup : (rows.map key).Nodup) (hn : 0 < n) (hmore : n < (page key after (n + 1) rows).length) :
    ∃ y, ((page key after (n + 1) rows).take n).getLast? = some y ∧ ((page key after (n + 1) rows).take n).length = n ∧
      behind key after rows = (page key after (n + 1) rows).take n ++ behind key (some (key y)) rows := by
  have hlength : ((page key after (n + 1) rows).take n).length = n := by
    rw [length_take]
    omega
  have hne : (page key after (n + 1) rows).take n ≠ [] := by
    intro hnil
    rw [hnil, length_nil] at hlength
    omega
  obtain ⟨y, hlast⟩ : ∃ y, ((page key after (n + 1) rows).take n).getLast? = some y := ⟨_, getLast?_eq_some_getLast hne⟩
  refine ⟨y, hlast, hlength, ?_⟩
  rw [take_page (Nat.le_succ n)] at hlast ⊢
  exact behind_split hnodup hlast

theorem overfetch_last {n : ℕ} (h : (page key after (n + 1) rows).length ≤ n) :
    page key after (n + 1) rows = behind key after rows := by
  unfold page at h ⊢
  rw [length_take] at h
  exact take_of_length_le (by omega)

theorem behind_last (hnodup : (rows.map key).Nodup) (hall : page key after limit rows = behind key after rows)
    (hlast : (page key after limit rows).getLast? = some y) : behind key (some (key y)) rows = [] := by
  have hsplit := behind_split hnodup hlast
  rw [hall] at hsplit
  exact self_eq_append_right.mp hsplit

/-! ### Reading page by page -/

section Scan

variable {σ ε : Type*} {body : σ → List α → Except ε σ} {s s' : σ}

/-- Read a page and treat it, until a page is empty, cut off after `pages` of them. The state is the one after the last
page that was treated; `true` means that the loop has ended. -/
def scan (key : α → κ) (limit : ℕ) (rows : List α) (body : σ → List α → Except ε σ) :
    ℕ → Option κ → σ → σ × Except ε Bool
  | 0, _, s => (s, .ok false)
  | pages + 1, after, s =>
    match page key after limit rows with
    | [] => (s, .ok true)
    | x :: xs =>
      match body s (x :: xs) with
      | .error e => (s, .error e)
      | .ok s' => scan key limit rows body pages ((x :: xs).getLast?.map key) s'

example : scan key limit rows body 0 after s = (s, .ok false) := by
  unfold scan
  rfl

theorem exists_last (x : α) (xs : List α) : ∃ y, (x :: xs).getLast? = some y :=
  ⟨_, getLast?_eq_some_getLast (cons_ne_nil x xs)⟩

/-- **Invariant rule.** What each page keeps, the loop keeps, wherever it is cut off; when it has ended no row is left. -/
theorem scan_induct {I : Option κ → σ → Prop} {pages : ℕ} {ended : Except ε Bool}
    (hpage : ∀ after s s' y, I after s → (page key after limit rows).getLast? = some y →
      body s (page key after limit rows) = .ok s' → I (some (key y)) s')
    (h : I after s) (hscan : scan key limit rows body pages after s = (s', ended)) :
    ∃ after', I after' s' ∧ (ended = .ok true → page key after' limit rows = []) := by
  induction pages generalizing after s with
  | zero =>
    cases hscan
    exact ⟨after, h, fun hended => by cases hended⟩
  | succ pages ih =>
    unfold scan at hscan
    split at hscan
    · rename_i hempty
      cases hscan
      exact ⟨after, h, fun _ => hempty⟩
    · rename_i x xs hfull
      split at hscan
      · cases hscan
        exact ⟨after, h, fun hended => by cases hended⟩
      · rename_i s1 hbody
        obtain ⟨y, hlast⟩ := exists_last x xs
        rw [hlast, map_some] at hscan
        rw [← hfull] at hbody hlast
        exact ih (hpage after s s1 y h hlast hbody) hscan

theorem scan_succeeds {I : Option κ → σ → Prop} {pages : ℕ}
    (hpage : ∀ after s y, I after s → (page key after limit rows).getLast? = some y →
      ∃ s', body s (page key after limit rows) = .ok s' ∧ I (some (key y)) s')
    (h : I after s) : ∃ s' ended, scan key limit rows body pages after s = (s', .ok ended) := by
  induction pages generalizing after s with
  | zero => exact ⟨s, false, rfl⟩
  | succ pages ih =>
    unfold scan
    split
    · exact ⟨s, true, rfl⟩
    · rename_i x xs hfull
      obtain ⟨y, hlast⟩ := exists_last x xs
      obtain ⟨s1, hbody, hI⟩ := hpage after s y h (by
        rw [hfull]
        exact hlast)
      rw [hfull] at hbody
      rw [hbody, hlast, map_some]
      exact ih hI

theorem scan_ends (hnodup : (rows.map key).Nodup) {pages : ℕ} (hpages : (behind key after rows).length < pages)
    (hscan : scan key limit rows body pages after s = (s', .ok false)) : False := by
  induction pages generalizing after s with
  | zero => omega
  | succ pages ih =>
    unfold scan at hscan
    split at hscan
    · cases (Prod.mk.inj hscan).2
    · rename_i x xs hfull
      split at hscan
      · cases (Prod.mk.inj hscan).2
      · obtain ⟨y, hlast⟩ := exists_last x xs
        rw [hlast, map_some] at hscan
        refine ih ?_ hscan
        rw [← hfull] at hlast
        have hsplit := congrArg List.length (behind_split hnodup hlast)
        rw [length_append, hfull, length_cons] at hsplit
        omega

/-- **Row by row**, a loop over pages is the loop over the rows in key order. -/
theorem scan_rows {step : σ → α → Except ε σ} (hnodup : (rows.map key).Nodup) (hlimit : 0 < limit) {pages : ℕ}
    (hpages : (behind key after rows).length < pages) :
    (scan key limit rows (fun s p => p.foldlM step s) pages after s).2 = ((behind key after rows).foldlM step s).map (fun _ => true) ∧
      ∀ s', (behind key after rows).foldlM step s = .ok s' →
        (scan key limit rows (fun s p => p.foldlM step s) pages after s).1 = s' := by
  induction pages generalizing after s with
  | zero => omega
  | succ pages ih =>
    unfold scan
    split
    · rename_i hempty
      have hnone : behind key after rows = [] := by
        refine eq_nil_iff_forall_not_mem.mpr fun x hx => ?_
        obtain ⟨hrow, hbehind⟩ := mem_behind.mp hx
        rw [(page_eq_nil hlimit).mp hempty x hrow] at hbehind
        cases hbehind
      rw [hnone]
      refine ⟨rfl, fun s' hs' => ?_⟩
      exact Except.ok.inj hs'
    · rename_i x xs hfull
      obtain ⟨y, hlast⟩ := exists_last x xs
      have hpage : (page key after limit rows).getLast? = some y := by
        rw [hfull]
        exact hlast
      have hsplit := behind_split hnodup hpage
      have hlen := congrArg List.length hsplit
      rw [length_append, hfull, length_cons] at hlen
      rw [hsplit, hfull, foldlM_append, hlast, map_some]
      cases hbody : (x :: xs).foldlM step s with
      | error e => exact ⟨rfl, fun s' hs' => by cases hs'⟩
      | ok s1 => exact ih (by omega)

end Scan

end AsterDrive.Keyset
