import Mathlib.Data.List.Nodup
import Mathlib.Data.List.Perm.Basic
import Mathlib.Data.Finset.Card
import Mathlib.Algebra.BigOperators.Group.List.Basic
import Mathlib.Tactic.Common
import Mathlib.Tactic.Abel

/-!
# Table — rows with a unique key

`Table key` is a list of rows no two of which have the same `key`: a database table with a unique
index. The operations are the statements a repository layer issues: `get` (select by key),
`insertNew` (insert, refused on a conflict), `updateWhere` and `deleteWhere` (statements with a
filter). `SerialTable` numbers its rows, the way an auto-increment column does.

Every operation has one equation for `get` and one for sums over all rows (`total`), and proofs
about a program's tables use only these.
-/

namespace AsterDrive

open List

variable {ρ κ : Type*} [DecidableEq κ]

/-- Rows with pairwise different keys. -/
structure Table (key : ρ → κ) where
  rows : List ρ
  unique : (rows.map key).Nodup

namespace Table

variable {key : ρ → κ}

/-- The table without rows. -/
def empty : Table key := ⟨[], nodup_nil⟩

/-- The row with this key. -/
def get (t : Table key) (k : κ) : Option ρ := t.rows.find? fun r => key r = k

/-- The sum of a row value over the whole table. -/
def total {M : Type*} [AddCommMonoid M] (t : Table key) (g : ρ → M) : M := (t.rows.map g).sum

variable {t : Table key} {k : κ} {r : ρ}

theorem get_eq_some_iff : t.get k = some r ↔ r ∈ t.rows ∧ key r = k := by
  obtain ⟨rows, huniq⟩ := t
  simp only [get]
  induction rows with
  | nil => simp
  | cons x xs ih =>
    have hx : key x ∉ xs.map key := (nodup_cons.mp huniq).1
    by_cases hk : key x = k
    · have hxs : ∀ y ∈ xs, key y ≠ k := fun y hy hyk =>
        hx (mem_map.mpr ⟨y, hy, hyk.trans hk.symm⟩)
      simp only [find?_cons, hk, decide_true, Option.some.injEq, mem_cons]
      constructor
      · rintro rfl
        exact ⟨.inl rfl, hk⟩
      · rintro ⟨rfl | hr, hrk⟩
        · rfl
        · exact absurd hrk (hxs r hr)
    · simp only [find?_cons, hk, decide_false, mem_cons]
      rw [ih (nodup_cons.mp huniq).2]
      constructor
      · rintro ⟨hr, hrk⟩
        exact ⟨.inr hr, hrk⟩
      · rintro ⟨rfl | hr, hrk⟩
        · exact absurd hrk hk
        · exact ⟨hr, hrk⟩

theorem get_eq_none_iff : t.get k = none ↔ ∀ r ∈ t.rows, key r ≠ k := by
  simp [get]

theorem mem_of_get (h : t.get k = some r) : r ∈ t.rows := ((get_eq_some_iff).mp h).1

theorem key_of_get (h : t.get k = some r) : key r = k := ((get_eq_some_iff).mp h).2

theorem get_of_mem (h : r ∈ t.rows) : t.get (key r) = some r := (get_eq_some_iff).mpr ⟨h, rfl⟩

@[simp] theorem get_empty (k : κ) : (empty : Table key).get k = none := rfl

/-! ### Insertion -/

/-- Insert a row; a row with the same key makes it fail. -/
def insertNew (t : Table key) (r : ρ) : Option (Table key) :=
  if h : key r ∈ t.rows.map key then none
  else some ⟨t.rows ++ [r], by
    rw [map_append, nodup_append]
    refine ⟨t.unique, by simp, ?_⟩
    rintro a ha b hb rfl
    simp only [map_cons, map_nil, mem_singleton] at hb
    exact h (hb ▸ ha)⟩

variable {t' : Table key}

theorem insertNew_eq_some (h : t.insertNew r = some t') : t.get (key r) = none ∧ t'.rows = t.rows ++ [r] := by
  unfold insertNew at h
  split_ifs at h with hk
  cases h
  refine ⟨(get_eq_none_iff).mpr fun x hx hxk => hk (mem_map.mpr ⟨x, hx, hxk⟩), rfl⟩

theorem insertNew_eq_none : t.insertNew r = none ↔ ∃ x, t.get (key r) = some x := by
  unfold insertNew
  split_ifs with hk
  · obtain ⟨x, hx, hxk⟩ := mem_map.mp hk
    exact ⟨fun _ => ⟨x, (get_eq_some_iff).mpr ⟨hx, hxk⟩⟩, fun _ => rfl⟩
  · refine ⟨fun h => by simp at h, fun ⟨x, hx⟩ => absurd ?_ hk⟩
    exact mem_map.mpr ⟨x, mem_of_get hx, key_of_get hx⟩

theorem get_insertNew (h : t.insertNew r = some t') (k : κ) : t'.get k = if key r = k then some r else t.get k := by
  obtain ⟨hnone, hrows⟩ := insertNew_eq_some h
  split_ifs with hk
  · exact (get_eq_some_iff).mpr ⟨by simp [hrows], hk⟩
  · simp [get, hrows, find?_append, hk]

variable {M : Type*}

theorem total_insertNew [AddCommMonoid M] (h : t.insertNew r = some t') (g : ρ → M) : t'.total g = t.total g + g r := by
  simp [total, (insertNew_eq_some h).2]

/-- Insert several rows with one statement. -/
def insertAll (t : Table key) (rows : List ρ) : Option (Table key) := rows.foldlM insertNew t

theorem insertAll_eq_some {rows : List ρ} (h : t.insertAll rows = some t') : t'.rows = t.rows ++ rows := by
  unfold insertAll at h
  induction rows generalizing t with
  | nil =>
    cases h
    rw [append_nil]
  | cons r rows ih =>
    obtain ⟨t1, hfirst, h⟩ := Option.bind_eq_some_iff.mp h
    rw [ih h, (insertNew_eq_some hfirst).2, append_assoc]
    rfl

theorem insertAll_succeeds {rows : List ρ} (h : ((t.rows ++ rows).map key).Nodup) :
    ∃ t', t.insertAll rows = some t' := by
  unfold insertAll
  induction rows generalizing t with
  | nil => exact ⟨t, rfl⟩
  | cons r rows ih =>
    have hsplit : t.rows ++ r :: rows = t.rows ++ [r] ++ rows := (append_cons _ _ _)
    rw [hsplit] at h
    cases hfirst : t.insertNew r with
    | none =>
      obtain ⟨x, hx⟩ := (insertNew_eq_none).mp hfirst
      rw [map_append, map_append] at h
      have hdisjoint := (nodup_append.mp (nodup_append.mp h).1).2.2
      have hmem : key x ∈ t.rows.map key := mem_map_of_mem (mem_of_get hx)
      exact absurd (key_of_get hx) (hdisjoint _ hmem _ (mem_singleton_self _))
    | some t1 =>
      rw [← (insertNew_eq_some hfirst).2] at h
      obtain ⟨t', ht'⟩ := ih h
      refine ⟨t', ?_⟩
      rw [foldlM_cons, hfirst]
      exact ht'

/-! ### Updates and deletions with a filter -/

/-- Rewrite the rows that meet the filter; the rewriting keeps the key. -/
def updateWhere (t : Table key) (p : ρ → Bool) (f : ρ → ρ) (hf : ∀ r, key (f r) = key r) : Table key where
  rows := t.rows.map fun r => if p r then f r else r
  unique := by
    have hkey : (key ∘ fun r => if p r then f r else r) = key := by
      funext r
      simp only [Function.comp_apply]
      split_ifs
      · exact hf r
      · rfl
    rw [map_map, hkey]
    exact t.unique

/-- Remove the rows that meet the filter. -/
def deleteWhere (t : Table key) (p : ρ → Bool) : Table key where
  rows := t.rows.filter fun r => !p r
  unique := t.unique.sublist (List.filter_sublist.map key)

/-- How many rows meet the filter (`rows_affected`). -/
def affected (t : Table key) (p : ρ → Bool) : ℕ := t.rows.countP p

theorem get_updateWhere (t : Table key) (p : ρ → Bool) (f : ρ → ρ) (hf : ∀ r, key (f r) = key r)
    (k : κ) : (t.updateWhere p f hf).get k = (t.get k).map fun r => if p r then f r else r := by
  have hkey : ∀ r, key (if p r then f r else r) = key r := by
    intro r
    split_ifs
    · exact hf r
    · rfl
  simp only [get, updateWhere, find?_map]
  congr 2
  funext r
  simp only [Function.comp_apply, hkey]

theorem get_deleteWhere (t : Table key) (p : ρ → Bool) (k : κ) :
    (t.deleteWhere p).get k = (t.get k).filter fun r => !p r := by
  rcases h : t.get k with _ | r
  · rw [Option.filter_none]
    refine (get_eq_none_iff).mpr fun r hr => (get_eq_none_iff).mp h r ?_
    exact (mem_filter.mp hr).1
  · obtain ⟨hr, hk⟩ := get_eq_some_iff.mp h
    by_cases hp : p r = true
    · rw [Option.filter_some, if_neg (by simp [hp])]
      refine (get_eq_none_iff).mpr fun x hx hxk => ?_
      obtain ⟨hx, hpx⟩ := mem_filter.mp hx
      have hxr : some x = some r := (get_eq_some_iff.mpr ⟨hx, hxk⟩).symm.trans h
      cases hxr
      simp [hp] at hpx
    · rw [Option.filter_some, if_pos (by simp [hp])]
      exact get_eq_some_iff.mpr ⟨mem_filter.mpr ⟨hr, by simp [hp]⟩, hk⟩

omit [DecidableEq κ] in
theorem total_updateWhere [AddCommMonoid M] (t : Table key) (p : ρ → Bool)
    (f : ρ → ρ) (hf : ∀ r, key (f r) = key r) (g : ρ → M) :
    (t.updateWhere p f hf).total g = t.total fun r => if p r then g (f r) else g r := by
  simp only [total, updateWhere, map_map]
  congr 2
  funext r
  simp only [Function.comp_apply]
  split_ifs <;> rfl

omit [DecidableEq κ] in
theorem total_deleteWhere [AddCommMonoid M] (t : Table key) (p : ρ → Bool)
    (g : ρ → M) : (t.deleteWhere p).total g = t.total fun r => if p r then 0 else g r := by
  obtain ⟨rows, huniq⟩ := t
  simp only [total, deleteWhere]
  clear huniq
  induction rows with
  | nil => rfl
  | cons x xs ih =>
    by_cases hp : p x = true
    · simp [hp, ih]
    · simp [hp, ih]

/-! ### Sums that differ at one key only -/

omit [DecidableEq κ] in
theorem total_congr [AddCommMonoid M] {g g' : ρ → M} (h : ∀ x ∈ t.rows, g' x = g x) : t.total g' = t.total g := by
  simp only [total]
  rw [map_congr_left h]

/-- Two row values that agree off the key `k` have totals that differ by the row at `k`. -/
theorem total_of_get [AddCommMonoid M] (hr : t.get k = some r) {g f : ρ → M} (h : ∀ x ∈ t.rows, key x ≠ k → f x = g x) :
    t.total f + g r = t.total g + f r := by
  obtain ⟨hmem, hk⟩ := get_eq_some_iff.mp hr
  clear hr
  obtain ⟨rows, huniq⟩ := t
  simp only [total] at *
  induction rows with
  | nil => simp at hmem
  | cons x xs ih =>
    obtain ⟨hx, hxs⟩ := nodup_cons.mp huniq
    simp only [map_cons, sum_cons]
    rcases mem_cons.mp hmem with rfl | hmem
    · -- the row itself stands first; the rest of the table has other keys
      have hrest : xs.map f = xs.map g := by
        refine map_congr_left fun y hy => h y (mem_cons_of_mem _ hy) fun hyk => hx ?_
        exact mem_map.mpr ⟨y, hy, hyk.trans hk.symm⟩
      rw [hrest]
      abel
    · have hxk : key x ≠ k := fun hxk => hx (mem_map.mpr ⟨r, hmem, hk.trans hxk.symm⟩)
      rw [h x (mem_cons_self ..) hxk, add_assoc, ih hxs (fun y hy => h y (mem_cons_of_mem _ hy)) hmem, add_assoc]

omit [DecidableEq κ] in
theorem total_split [AddCommMonoid M] (t : Table key) (p : ρ → Bool) (g : ρ → M) :
    (t.total fun r => if p r then 0 else g r) + ((t.rows.filter p).map g).sum = t.total g := by
  obtain ⟨rows, huniq⟩ := t
  simp only [total]
  clear huniq
  induction rows with
  | nil => simp
  | cons x xs ih =>
    by_cases hp : p x = true
    · rw [filter_cons_of_pos hp, map_cons, sum_cons, map_cons, sum_cons, map_cons, sum_cons, if_pos hp, ← ih]
      abel
    · rw [filter_cons_of_neg hp, map_cons, sum_cons, map_cons, sum_cons, if_neg hp, ← ih]
      abel

/-! ### Counts -/

omit [DecidableEq κ] in
/-- After an update, at most those rows are new to a condition that were rewritten into it. -/
theorem affected_updateWhere_le (t : Table key) (p : ρ → Bool) (f : ρ → ρ) (hf : ∀ r, key (f r) = key r)
    (q : ρ → Bool) :
    (t.updateWhere p f hf).affected q ≤ t.affected q + t.affected fun r => p r && !q r && q (f r) := by
  obtain ⟨rows, huniq⟩ := t
  simp only [affected, updateWhere]
  clear huniq
  induction rows with
  | nil => simp
  | cons x xs ih =>
    have hrow : (if q (if p x then f x else x) then 1 else 0) ≤
        (if q x then 1 else 0) + if (p x && !q x && q (f x)) = true then 1 else 0 := by
      cases hp : p x <;> cases hq : q x <;> cases hqf : q (f x) <;> simp [hq, hqf]
    simp only [map_cons, countP_cons]
    omega

theorem affected_key_le_one (t : Table key) (k : κ) (q : ρ → Bool) :
    (t.affected fun r => decide (key r = k) && q r) ≤ 1 := by
  obtain ⟨rows, huniq⟩ := t
  simp only [affected]
  induction rows with
  | nil => simp
  | cons x xs ih =>
    obtain ⟨hx, hxs⟩ := nodup_cons.mp huniq
    rw [countP_cons]
    by_cases hk : key x = k
    · have hzero : xs.countP (fun r => decide (key r = k) && q r) = 0 := by
        refine countP_eq_zero.mpr fun y hy => ?_
        have hne : key y ≠ k := fun hyk => hx (mem_map.mpr ⟨y, hy, hyk.trans hk.symm⟩)
        simp [hne]
      split_ifs <;> omega
    · have hle := ih hxs
      simp only [hk, decide_false, Bool.false_and]
      simpa using hle

variable {q : ρ → Bool}

theorem exists_of_two_le_affected (k : κ) (h : 2 ≤ t.affected q) : ∃ r ∈ t.rows, q r ∧ key r ≠ k := by
  by_contra hnone
  push Not at hnone
  have hle : t.affected q ≤ t.affected fun r => decide (key r = k) && q r :=
    countP_mono_left fun r hr hq => by simp [hnone r hr hq, hq]
  have hone := affected_key_le_one t k q
  omega

omit [DecidableEq κ] in
variable {p : ρ → Bool}

theorem affected_mono (h : ∀ r ∈ t.rows, p r → q r) : t.affected p ≤ t.affected q := countP_mono_left h

omit [DecidableEq κ] in
theorem affected_deleteWhere_le (t : Table key) (p q : ρ → Bool) : (t.deleteWhere p).affected q ≤ t.affected q :=
  List.filter_sublist.countP_le

omit [DecidableEq κ] in
theorem affected_deleteWhere_lt (hr : r ∈ t.rows) (hp : p r) (hq : q r) :
    (t.deleteWhere p).affected q < t.affected q := by
  unfold affected deleteWhere
  rw [countP_eq_countP_filter_add t.rows q p]
  have hpos : 0 < (t.rows.filter p).countP q := countP_pos_iff.mpr ⟨r, mem_filter.mpr ⟨hr, hp⟩, hq⟩
  dsimp only
  omega

/-! ### The rows themselves -/

omit [DecidableEq κ] in
variable {x : ρ}

theorem mem_updateWhere {f : ρ → ρ} {hf : ∀ r, key (f r) = key r}
    : x ∈ (t.updateWhere p f hf).rows ↔ ∃ r ∈ t.rows, (if p r then f r else r) = x := by
  simp [updateWhere]

omit [DecidableEq κ] in
theorem mem_deleteWhere : x ∈ (t.deleteWhere p).rows ↔ x ∈ t.rows ∧ p x = false := by
  simp [deleteWhere]

theorem eq_of_key {y : ρ} (hx : x ∈ t.rows) (hy : y ∈ t.rows) (h : key x = key y) : x = y := by
  have hget := get_of_mem hx
  rw [h, get_of_mem hy] at hget
  exact (Option.some.inj hget).symm

/-- A statement on the rows with keys in `ks` that affects as many rows as there are keys finds a
row for each of them. -/
theorem exists_of_affected {ks : List κ} (h : t.affected (fun r => key r ∈ ks ∧ q r = true) = ks.length) (hk : k ∈ ks) :
    ∃ r, t.get k = some r ∧ q r = true := by
  let hit := t.rows.filter fun r => decide (key r ∈ ks ∧ q r = true)
  have hlen : hit.length = ks.length := by
    rw [← h]
    exact (countP_eq_length_filter ..).symm
  have hsub : (hit.map key).toFinset ⊆ ks.toFinset := by
    intro x hx
    obtain ⟨r, hr, rfl⟩ := mem_map.mp (mem_toFinset.mp hx)
    have hr' := (mem_filter.mp hr).2
    simp only [decide_eq_true_eq] at hr'
    exact mem_toFinset.mpr hr'.1
  have hnd : (hit.map key).Nodup := t.unique.sublist (List.filter_sublist.map key)
  have hcard : ks.toFinset.card ≤ (hit.map key).toFinset.card := by
    rw [toFinset_card_of_nodup hnd, length_map, hlen]
    exact ks.toFinset_card_le
  have hmem : k ∈ (hit.map key).toFinset := by
    rw [Finset.eq_of_subset_of_card_le hsub hcard]
    exact mem_toFinset.mpr hk
  obtain ⟨r, hr, rfl⟩ := mem_map.mp (mem_toFinset.mp hmem)
  obtain ⟨hrows, hq⟩ := mem_filter.mp hr
  simp only [decide_eq_true_eq] at hq
  exact ⟨r, get_of_mem hrows, hq.2⟩

end Table

/-! ### Tables that number their rows -/

/-- A table whose key is a serial number: every row has a number below `next`, and `next` never
goes back, so that no number is used twice. -/
structure SerialTable (key : ρ → ℕ) extends Table key where
  next : ℕ
  below : ∀ r ∈ rows, key r < next

namespace SerialTable

variable {key : ρ → ℕ}

def empty : SerialTable key := { Table.empty with next := 1, below := by simp [Table.empty] }

/-- Insert the row that gets the next number. -/
def insert (t : SerialTable key) (mk : ℕ → ρ) (hmk : ∀ n, key (mk n) = n) : SerialTable key where
  rows := t.rows ++ [mk t.next]
  unique := by
    rw [map_append, nodup_append]
    refine ⟨t.unique, by simp, ?_⟩
    rintro a ha b hb rfl
    obtain ⟨r, hr, rfl⟩ := mem_map.mp ha
    have hlt := t.below r hr
    simp only [map_cons, map_nil, mem_singleton, hmk] at hb
    omega
  next := t.next + 1
  below := by
    intro r hr
    rcases mem_append.mp hr with hr | hr
    · exact Nat.lt_succ_of_lt (t.below r hr)
    · rw [mem_singleton.mp hr, hmk]
      exact Nat.lt_succ_self _

/-- `Table.updateWhere`, with the numbering kept. -/
def updateRows (t : SerialTable key) (p : ρ → Bool) (f : ρ → ρ) (hf : ∀ r, key (f r) = key r) : SerialTable key where
  toTable := t.toTable.updateWhere p f hf
  next := t.next
  below := by
    intro x hx
    obtain ⟨r, hr, rfl⟩ := Table.mem_updateWhere.mp hx
    have hlt := t.below r hr
    split_ifs
    · rw [hf]
      exact hlt
    · exact hlt

/-- `Table.deleteWhere`, with the numbering kept. -/
def deleteRows (t : SerialTable key) (p : ρ → Bool) : SerialTable key where
  toTable := t.toTable.deleteWhere p
  next := t.next
  below := fun x hx => t.below x (Table.mem_deleteWhere.mp hx).1

theorem get_next (t : SerialTable key) {k : ℕ} (hk : t.next ≤ k) : t.get k = none := by
  rw [Table.get_eq_none_iff]
  intro r hr hrk
  have hlt := t.below r hr
  omega

variable {t : SerialTable key}

theorem lt_next_of_get {k : ℕ} {r : ρ} (h : t.get k = some r) : k < t.next := by
  obtain ⟨hr, rfl⟩ := Table.get_eq_some_iff.mp h
  exact t.below r hr

variable {mk : ℕ → ρ}

theorem get_insert (t : SerialTable key) (hmk : ∀ n, key (mk n) = n) (k : ℕ) :
    (t.insert mk hmk).get k = if t.next = k then some (mk t.next) else t.get k := by
  split_ifs with hk
  · exact Table.get_eq_some_iff.mpr ⟨by simp [insert], (hmk _).trans hk⟩
  · have hne : key (mk t.next) ≠ k := by
      rw [hmk]
      exact hk
    simp [Table.get, insert, find?_append, hne]

variable {x : ρ}

theorem mem_insert {hmk : ∀ n, key (mk n) = n} : x ∈ (t.insert mk hmk).rows ↔ x ∈ t.rows ∨ x = mk t.next := by
  simp [insert]

theorem total_insert {M : Type*} [AddCommMonoid M] (t : SerialTable key) (hmk : ∀ n, key (mk n) = n) (g : ρ → M) :
    (t.insert mk hmk).total g = t.total g + g (mk t.next) := by
  simp [Table.total, insert]

theorem eq_of_rows {t' : SerialTable key} (hrows : t.rows = t'.rows) (hnext : t.next = t'.next) : t = t' := by
  obtain ⟨⟨rows, _⟩, next, _⟩ := t
  obtain ⟨⟨rows', _⟩, next', _⟩ := t'
  obtain rfl : rows = rows' := hrows
  obtain rfl : next = next' := hnext
  rfl

variable {p : ρ → Bool} {f : ρ → ρ}

/-- An update that only concerns the row just inserted is an insertion of the updated row. -/
theorem updateRows_insert (t : SerialTable key) {mk' : ℕ → ρ} (hmk : ∀ n, key (mk n) = n)
    (hmk' : ∀ n, key (mk' n) = n) (hf : ∀ r, key (f r) = key r)
    (hold : ∀ r ∈ t.rows, p r = false) (hnew : p (mk t.next) = true)
    (heq : f (mk t.next) = mk' t.next) :
    (t.insert mk hmk).updateRows p f hf = t.insert mk' hmk' := by
  refine eq_of_rows ?_ rfl
  show (t.rows ++ [mk t.next]).map (fun r => if p r then f r else r) = t.rows ++ [mk' t.next]
  rw [map_append, map_singleton, if_pos hnew, heq]
  congr 1
  refine (map_congr_left fun r hr => ?_).trans (map_id _)
  rw [hold r hr]
  rfl

theorem updateRows_of_none (t : SerialTable key) {hf : ∀ r, key (f r) = key r}
    (h : ∀ r ∈ t.rows, p r = false) : t.updateRows p f hf = t := by
  refine eq_of_rows ?_ rfl
  show t.rows.map (fun r => if p r then f r else r) = t.rows
  refine (map_congr_left fun r hr => ?_).trans (map_id _)
  rw [h r hr]
  rfl

theorem updateRows_self (t : SerialTable key)
    {hf : ∀ r, key (f r) = key r} (h : ∀ r, f r = r) : t.updateRows p f hf = t := by
  refine eq_of_rows ?_ rfl
  show t.rows.map (fun r => if p r then f r else r) = t.rows
  refine (map_congr_left fun r _ => ?_).trans (map_id _)
  rw [h r]
  exact ite_self r

theorem mem_updateRows {hf : ∀ r, key (f r) = key r} :
    x ∈ (t.updateRows p f hf).rows ↔ ∃ r ∈ t.rows, (if p r then f r else r) = x := by
  show x ∈ (t.toTable.updateWhere p f hf).rows ↔ _
  exact Table.mem_updateWhere

theorem get_updateRows (t : SerialTable key) (p : ρ → Bool) (f : ρ → ρ) (hf : ∀ r, key (f r) = key r) (k : ℕ) :
    (t.updateRows p f hf).get k = (t.get k).map fun r => if p r then f r else r :=
  Table.get_updateWhere t.toTable p f hf k

theorem get_deleteRows (t : SerialTable key) (p : ρ → Bool) (k : ℕ) :
    (t.deleteRows p).get k = (t.get k).filter fun r => !p r :=
  Table.get_deleteWhere t.toTable p k

theorem mem_deleteRows {r : ρ} : r ∈ (t.deleteRows p).rows ↔ r ∈ t.rows ∧ p r = false := Table.mem_deleteWhere

theorem total_updateRows {M : Type*} [AddCommMonoid M] (t : SerialTable key) (p : ρ → Bool)
    (f : ρ → ρ) (hf : ∀ r, key (f r) = key r) (g : ρ → M) :
    (t.updateRows p f hf).total g = t.total fun r => if p r then g (f r) else g r :=
  Table.total_updateWhere t.toTable p f hf g

theorem mem_updateOne {r0 : ρ} (h0 : r0 ∈ t.rows) {hf : ∀ r, key (f r) = key r} :
    x ∈ (t.updateRows (fun r => decide (key r = key r0)) f hf).rows ↔ x = f r0 ∨ (x ∈ t.rows ∧ key x ≠ key r0) := by
  rw [mem_updateRows]
  constructor
  · rintro ⟨r, hr, rfl⟩
    by_cases hk : key r = key r0
    · obtain rfl := Table.eq_of_key hr h0 hk
      left
      simp
    · right
      simp [hk, hr]
  · rintro (rfl | ⟨hx, hk⟩)
    · exact ⟨r0, h0, by simp⟩
    · exact ⟨x, hx, by simp [hk]⟩

end SerialTable

end AsterDrive
