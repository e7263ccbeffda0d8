import AsterDrive.Migrations.BackfillEnds

/-!
# HistoryRoundTrip — what the migrated ledger says, and what `down` makes of it

`HistoryPreserved` is the reading of a migrated ledger: one history for each file, its revisions in sequence order the
legacy versions and then the current content. `down` finds the legacy rows again and gives them their sequence for a
version, as far as the column holds it (`history_preserved`).
-/

namespace AsterDrive.RevisionLedger

open List

/-! ### What the ledger says -/

/-- The revisions of a history, by sequence. -/
def revisionsInOrder (t : Ledger) (historyId : ℤ) : List FileRevision :=
  Keyset.behind FileRevision.sequence none (t.revisions.rows.filter fun r => r.historyId = historyId)

/-- What a revision has of a legacy version. -/
def FileRevision.content (r : FileRevision) : ℤ × Option ℤ × ℤ × ℕ := (r.id, r.blobId, r.logicalSize, r.createdAt)

open FileRevision

/-- The history of a file: its versions, and behind them the current revision. -/
structure FileHistory (versions : Table LegacyRevision.id) (properties : Table EntityProperty.key) (t : Ledger)
    (f : LegacyFile) (h : FileRevisionHistory) (front : List FileRevision) (current : FileRevision) : Prop where
  revisions : revisionsInOrder t h.id = front ++ [current]
  versions : front.map content = (legacyOrder versions f.id).map fun v => (v.id, some v.blobId, v.size, v.createdAt)
  head : h.currentRevisionId = some current.id
  content : current.blobId = some f.blobId ∧ current.logicalSize = f.size ∧ current.mimeType = some f.mimeType
  properties : (t.properties.rows.filter fun p => p.revisionId = current.id).map
      (fun p => (p.propertyNamespace, p.propertyName, p.xmlValue)) =
    (liveUserProperties properties f.id).map fun p => (p.propertyNamespace, p.propertyName, p.value)
  sequences : (front ++ [current]).map sequence = (List.range (front.length + 1)).map fun i : ℕ => (i + 1 : ℤ)
  next : h.nextSequence = front.length + 1 + 1
  predecessors : (front ++ [current]).map predecessorRevisionId = none :: front.map fun r => some r.id

structure HistoryPreserved (db : Database) (versions : Table LegacyRevision.id) (t : Ledger) : Prop where
  one : ∀ f ∈ db.files.rows, ∃ h ∈ t.histories.rows, h.fileId = some f.id ∧
    ∀ h' ∈ t.histories.rows, h'.fileId = some f.id → h' = h
  owned : ∀ h ∈ t.histories.rows, ∃ f ∈ db.files.rows, h.fileId = some f.id
  history : ∀ f ∈ db.files.rows, ∀ h ∈ t.histories.rows, h.fileId = some f.id →
    ∃ front current, FileHistory versions db.properties t f h front current
  ids : (t.revisions.rows.map FileRevision.id).Nodup
  counts : ∀ k, (t.revisions.rows.countP fun r => r.blobId = some k) =
    (db.files.rows.countP fun f => f.blobId = k) + versions.rows.countP fun v => v.blobId = k

/-- `down` has put the legacy rows back: all but the version numbers, and these in the same order. -/
structure Restored (db : Database) (versions : Table LegacyRevision.id) (x : Database) (restored : Table LegacyRevision.id) :
    Prop where
  stored : x.fileVersions = some restored
  ledger : x.ledger = none
  files : x.files = db.files ∧ x.properties = db.properties
  rows : (restored.rows.map fun v => (v.id, v.fileId, v.blobId, v.size, v.createdAt)).Perm
    (versions.rows.map fun v => (v.id, v.fileId, v.blobId, v.size, v.createdAt))
  order : ∀ a ∈ versions.rows, ∀ b ∈ versions.rows, a.fileId = b.fileId → ∀ a' ∈ restored.rows, ∀ b' ∈ restored.rows,
    a'.id = a.id → b'.id = b.id → (a.cursor < b.cursor ↔ a'.version < b'.version)

/-! ### Chains -/

section Chains

variable {vs : List LegacyRevision} {predecessor : Option ℤ} {n : ℤ}

theorem content_chainOf (predecessor : Option ℤ) (n : ℤ) (vs : List LegacyRevision) :
    (chainOf predecessor n vs).map content = vs.map fun v => (v.id, some v.blobId, v.size, v.createdAt) := by
  induction vs generalizing predecessor n with
  | nil => rfl
  | cons v vs ih =>
    unfold chainOf
    rw [map_cons, map_cons, ih]
    rfl

theorem length_chainOf (predecessor : Option ℤ) (n : ℤ) (vs : List LegacyRevision) :
    (chainOf predecessor n vs).length = vs.length := by
  have hcontent := congrArg List.length (content_chainOf predecessor n vs)
  rwa [length_map, length_map] at hcontent

theorem sequences_chainOf (predecessor : Option ℤ) (n : ℤ) (vs : List LegacyRevision) :
    (chainOf predecessor n vs).map sequence = (List.range vs.length).map fun i : ℕ => n + (i : ℤ) := by
  induction vs generalizing predecessor n with
  | nil => rfl
  | cons v vs ih =>
    unfold chainOf
    rw [map_cons, ih, length_cons, range_succ_eq_map, map_cons, map_map]
    congr 1
    · show n = n + ((0 : ℕ) : ℤ)
      omega
    · refine map_congr_left fun i _ => ?_
      show n + 1 + (i : ℤ) = n + ((i + 1 : ℕ) : ℤ)
      omega

theorem predecessors_chainOf (predecessor : Option ℤ) (n : ℤ) (vs : List LegacyRevision) :
    (chainOf predecessor n vs).map predecessorRevisionId ++ [lastOf predecessor vs] =
      predecessor :: (chainOf predecessor n vs).map fun r => some r.id := by
  induction vs generalizing predecessor n with
  | nil => rfl
  | cons v vs ih =>
    unfold chainOf
    refine congrArg (List.cons predecessor) ?_
    exact ih (some v.id) (n + 1)

theorem mem_chainOf {r : FileRevision} (h : r ∈ chainOf predecessor n vs) : ∃ v ∈ vs, ∃ p m, r = v.revision p m := by
  induction vs generalizing predecessor n with
  | nil => cases h
  | cons v vs ih =>
    rcases mem_cons.mp h with rfl | h
    · exact ⟨v, mem_cons_self, _, _, rfl⟩
    · obtain ⟨x, hx, hr⟩ := ih h
      exact ⟨x, mem_cons_of_mem _ hx, hr⟩

end Chains

section Files

variable (versions : Table LegacyRevision.id) (f : LegacyFile) (currentId : ℤ)

/-- The revision that has the content of the file. -/
def currentOf : FileRevision :=
  f.revision currentId (lastOf none (legacyOrder versions f.id)) (1 + (legacyOrder versions f.id).length)

theorem revisionsOf_eq : revisionsOf versions f currentId =
    chainOf none 1 (legacyOrder versions f.id) ++ [currentOf versions f currentId] := rfl

variable {versions f currentId}

theorem historyId_of_mem {r : FileRevision} (h : r ∈ revisionsOf versions f currentId) : r.historyId = f.id := by
  rw [revisionsOf_eq, mem_append, mem_singleton] at h
  rcases h with h | rfl
  · obtain ⟨v, hv, _, _, rfl⟩ := mem_chainOf h
    exact (fileId_of_mem_legacyOrder hv).2
  · rfl

theorem sequences_revisionsOf : (revisionsOf versions f currentId).map sequence =
    (List.range ((legacyOrder versions f.id).length + 1)).map fun i : ℕ => (i + 1 : ℤ) := by
  rw [revisionsOf_eq, map_append, sequences_chainOf, range_succ, map_append]
  congr 1
  · refine map_congr_left fun i _ => ?_
    omega
  · show [1 + ((legacyOrder versions f.id).length : ℤ)] = [((legacyOrder versions f.id).length : ℤ) + 1]
    rw [add_comm]

theorem ascending_revisionsOf : (revisionsOf versions f currentId).Pairwise fun a b => a.sequence < b.sequence := by
  rw [← pairwise_map (f := sequence) (R := fun a b : ℤ => a < b), sequences_revisionsOf, pairwise_map]
  refine List.pairwise_lt_range.imp fun hab => ?_
  omega

end Files

/-! ### Rows of one file among all -/

theorem filter_flatMap_of_unique {α β : Type*} {l : List α} {g : α → List β} {p : β → Bool} {d : α} (hd : d ∈ l)
    (hnodup : l.Nodup) (hall : ∀ b ∈ g d, p b = true) (hnone : ∀ x ∈ l, x ≠ d → ∀ b ∈ g x, p b = false) :
    (l.flatMap g).filter p = g d := by
  induction l with
  | nil => cases hd
  | cons x l ih =>
    obtain ⟨hx, hnodup⟩ := nodup_cons.mp hnodup
    rw [flatMap_cons, filter_append]
    rcases mem_cons.mp hd with rfl | hd
    · have hrest : (l.flatMap g).filter p = [] := by
        refine filter_eq_nil_iff.mpr fun b hb => ?_
        obtain ⟨y, hy, hb⟩ := mem_flatMap.mp hb
        rw [hnone y (mem_cons_of_mem _ hy) (fun heq => hx (heq ▸ hy)) b hb]
        exact Bool.false_ne_true
      rw [filter_eq_self.mpr hall, hrest, append_nil]
    · have hfirst : (g x).filter p = [] := by
        refine filter_eq_nil_iff.mpr fun b hb => ?_
        rw [hnone x mem_cons_self (fun heq => hx (heq ▸ hd)) b hb]
        exact Bool.false_ne_true
      rw [hfirst, nil_append]
      exact ih hd hnodup fun y hy => hnone y (mem_cons_of_mem _ hy)

section Reading

variable {db : Database} {versions : Table LegacyRevision.id} {t : Ledger} {done : List (LegacyFile × ℤ)}

section

variable (h : Migrated db versions t done)
include h

theorem Migrated.eq_of_file {d d' : LegacyFile × ℤ} (hd : d ∈ done) (hd' : d' ∈ done)
    (hid : d.1.id = d'.1.id) : d = d' := inj_on_of_nodup_map h.nodup hd hd' hid

theorem Migrated.eq_of_current {d d' : LegacyFile × ℤ} (hd : d ∈ done) (hd' : d' ∈ done)
    (hid : d.2 = d'.2) : d = d' := by
  have hrow : ∀ e ∈ done, currentOf versions e.1 e.2 ∈ t.revisions.rows := by
    intro e he
    rw [h.revisions]
    refine mem_flatMap.mpr ⟨e, he, ?_⟩
    exact mem_append_right _ (mem_singleton_self _)
  have hsame := Table.eq_of_key (hrow d hd) (hrow d' hd') hid
  exact h.eq_of_file hd hd' (congrArg historyId hsame)

theorem Migrated.revisions_of {d : LegacyFile × ℤ} (hd : d ∈ done) :
    (t.revisions.rows.filter fun r => r.historyId = d.1.id) = revisionsOf versions d.1 d.2 := by
  rw [h.revisions]
  refine filter_flatMap_of_unique hd h.nodup.of_map (fun r hr => ?_) fun x hx hne r hr => ?_
  · exact decide_eq_true (historyId_of_mem hr)
  · refine decide_eq_false fun hid => hne (h.eq_of_file hx hd ?_)
    rw [← hid]
    exact (historyId_of_mem hr).symm

theorem Migrated.revisionsInOrder {d : LegacyFile × ℤ} (hd : d ∈ done) :
    revisionsInOrder t d.1.id = revisionsOf versions d.1 d.2 := by
  unfold RevisionLedger.revisionsInOrder Keyset.behind
  rw [h.revisions_of hd, filter_eq_self.mpr fun r _ => by simp [Keyset.isBehind]]
  exact Pairwise.insertionSort_eq ((ascending_revisionsOf).imp fun hab => hab.le)

theorem Migrated.properties_of {d : LegacyFile × ℤ} (hd : d ∈ done) :
    (t.properties.rows.filter fun p => p.revisionId = d.2) = propertiesOf db.properties d.1 d.2 := by
  rw [h.properties]
  have howner : ∀ e : LegacyFile × ℤ, ∀ p ∈ propertiesOf db.properties e.1 e.2, p.revisionId = e.2 := by
    intro e p hp
    obtain ⟨q, _, rfl⟩ := mem_map.mp hp
    rfl
  refine filter_flatMap_of_unique hd h.nodup.of_map (fun p hp => ?_) fun x hx hne p hp => ?_
  · exact decide_eq_true (howner d p hp)
  · refine decide_eq_false fun hid => hne (h.eq_of_current hx hd ?_)
    rw [← hid]
    exact (howner x p hp).symm

/-- **The history of a file.** -/
theorem Migrated.fileHistory {d : LegacyFile × ℤ} (hd : d ∈ done) :
    FileHistory versions db.properties t d.1 (historyOf versions d.1 d.2)
      (chainOf none 1 (legacyOrder versions d.1.id)) (currentOf versions d.1 d.2) := by
  have hlength := length_chainOf none 1 (legacyOrder versions d.1.id)
  refine ⟨h.revisionsInOrder hd, content_chainOf _ _ _, rfl, ⟨rfl, rfl, rfl⟩, ?_, ?_, ?_, ?_⟩
  · rw [show (currentOf versions d.1 d.2).id = d.2 from rfl, h.properties_of hd]
    unfold propertiesOf
    rw [map_map]
    rfl
  · rw [← revisionsOf_eq, sequences_revisionsOf, hlength]
  · rw [hlength]
    show (1 : ℤ) + _ + 1 = _
    omega
  · rw [map_append]
    exact predecessors_chainOf none 1 _

theorem Migrated.files_perm (hcovers : Covers db done) : (done.map Prod.fst).Perm db.files.rows := by
  have hnodup : (done.map Prod.fst).Nodup := by
    have hids : ((done.map Prod.fst).map LegacyFile.id).Nodup := by
      rw [map_map]
      exact h.nodup
    exact hids.of_map
  refine (perm_ext_iff_of_nodup hnodup db.files.unique.of_map).mpr fun f => ?_
  rw [mem_map]
  constructor
  · rintro ⟨d, hd, rfl⟩
    exact h.files d hd
  · intro hf
    obtain ⟨d, hd, rfl⟩ := hcovers f hf
    exact ⟨d, hd, rfl⟩

end

/-- **The versions, file by file**, are the versions: each is of one file. -/
theorem versions_perm (hlegacy : Legacy db versions) (h : Migrated db versions t done) (hcovers : Covers db done) :
    (done.flatMap fun d => legacyOrder versions d.1.id).Perm versions.rows := by
  have hpart : ∀ fileId, (legacyOrder versions fileId).Nodup := by
    intro fileId
    exact Keyset.nodup_behind (nodup_cursors versions fileId)
  have hnodup : (done.flatMap fun d => legacyOrder versions d.1.id).Nodup := by
    refine nodup_flatMap.mpr ⟨fun d _ => hpart d.1.id, ?_⟩
    refine (pairwise_map.mp h.nodup).imp fun hne v hv hv' => ?_
    exact hne ((fileId_of_mem_legacyOrder hv).2.symm.trans (fileId_of_mem_legacyOrder hv').2)
  refine (perm_ext_iff_of_nodup hnodup versions.unique.of_map).mpr fun v => ?_
  rw [mem_flatMap]
  constructor
  · rintro ⟨d, _, hv⟩
    exact (fileId_of_mem_legacyOrder hv).1
  · intro hv
    obtain ⟨f, hf, hid⟩ := hlegacy.owned v hv
    obtain ⟨d, hd, rfl⟩ := hcovers f hf
    refine ⟨d, hd, Keyset.mem_behind.mpr ⟨?_, by simp [Keyset.isBehind]⟩⟩
    exact mem_filter.mpr ⟨hv, decide_eq_true hid.symm⟩

theorem countP_chainOf (predecessor : Option ℤ) (n k : ℤ) (vs : List LegacyRevision) :
    ((chainOf predecessor n vs).countP fun r => r.blobId = some k) = vs.countP fun v => v.blobId = k := by
  have hleft : ((chainOf predecessor n vs).countP fun r => r.blobId = some k) =
      ((chainOf predecessor n vs).map content).countP fun c => c.2.1 = some k := by
    rw [countP_map]
    rfl
  rw [hleft, content_chainOf, countP_map]
  refine countP_congr fun v _ => ?_
  simp

theorem Migrated.counts (hlegacy : Legacy db versions) (h : Migrated db versions t done) (hcovers : Covers db done) (k : ℤ) :
    (t.revisions.rows.countP fun r => r.blobId = some k) =
      (db.files.rows.countP fun f => f.blobId = k) + versions.rows.countP fun v => v.blobId = k := by
  rw [h.revisions, ← (h.files_perm hcovers).countP_eq, ← (versions_perm hlegacy h hcovers).countP_eq]
  clear h hcovers
  induction done with
  | nil => rfl
  | cons d done ih =>
    rw [flatMap_cons, countP_append, ih, map_cons, countP_cons, flatMap_cons, countP_append,
      revisionsOf_eq, countP_append, countP_chainOf, countP_singleton]
    have hcurrent : decide ((currentOf versions d.1 d.2).blobId = some k) = decide (d.1.blobId = k) := by
      unfold currentOf LegacyFile.revision
      simp
    rw [hcurrent]
    omega

/-- **A migrated ledger of all files** has the legacy history. -/
theorem Migrated.preserved (hlegacy : Legacy db versions) (h : Migrated db versions t done) (hcovers : Covers db done) :
    HistoryPreserved db versions t := by
  have hmem : ∀ x ∈ t.histories.rows, ∃ d ∈ done, x = historyOf versions d.1 d.2 := by
    intro x hx
    rw [h.histories] at hx
    obtain ⟨d, hd, rfl⟩ := mem_map.mp hx
    exact ⟨d, hd, rfl⟩
  refine ⟨fun f hf => ?_, fun x hx => ?_, fun f hf x hx hfile => ?_, t.revisions.unique, h.counts hlegacy hcovers⟩
  · obtain ⟨d, hd, rfl⟩ := hcovers f hf
    refine ⟨historyOf versions d.1 d.2, ?_, rfl, fun x hx hfile => ?_⟩
    · rw [h.histories]
      exact mem_map_of_mem hd
    · obtain ⟨d', hd', rfl⟩ := hmem x hx
      rw [h.eq_of_file hd' hd (Option.some.inj hfile)]
  · obtain ⟨d, hd, rfl⟩ := hmem x hx
    exact ⟨d.1, h.files d hd, rfl⟩
  · obtain ⟨d, hd, rfl⟩ := hmem x hx
    obtain rfl : d.1 = f := Table.eq_of_key (h.files d hd) hf (Option.some.inj hfile)
    exact ⟨_, _, h.fileHistory hd⟩

end Reading

/-! ### The way back -/

/-- The versions of a file, with the sequences for numbers. -/
def renumber : ℤ → List LegacyRevision → List LegacyRevision
  | _, [] => []
  | n, v :: vs => { v with version := n } :: renumber (n + 1) vs

section Renumber

variable {n : ℤ} {vs : List LegacyRevision}

theorem rows_renumber (n : ℤ) (vs : List LegacyRevision) :
    (renumber n vs).map (fun v => (v.id, v.fileId, v.blobId, v.size, v.createdAt)) =
      vs.map fun v => (v.id, v.fileId, v.blobId, v.size, v.createdAt) := by
  induction vs generalizing n with
  | nil => rfl
  | cons v vs ih =>
    unfold renumber
    rw [map_cons, map_cons, ih]

theorem getElem?_renumber (n : ℤ) (vs : List LegacyRevision) (i : ℕ) :
    (renumber n vs)[i]? = vs[i]?.map fun v => { v with version := n + i } := by
  induction vs generalizing n i with
  | nil => rfl
  | cons v vs ih =>
    unfold renumber
    cases i with
    | zero => simp
    | succ i =>
      rw [getElem?_cons_succ, getElem?_cons_succ, ih]
      refine congrArg (fun g => Option.map g vs[i]?) (funext fun x => ?_)
      have hnumber : n + 1 + (i : ℤ) = n + ((i + 1 : ℕ) : ℤ) := by omega
      rw [hnumber]

theorem mem_renumber {x : LegacyRevision} : x ∈ renumber n vs ↔ ∃ (i : ℕ) (v : LegacyRevision), vs[i]? = some v ∧ x = { v with version := n + i } := by
  rw [mem_iff_getElem?]
  constructor
  · rintro ⟨i, hi⟩
    rw [getElem?_renumber] at hi
    obtain ⟨v, hv, rfl⟩ := Option.map_eq_some_iff.mp hi
    exact ⟨i, v, hv, rfl⟩
  · rintro ⟨i, v, hv, rfl⟩
    refine ⟨i, ?_⟩
    rw [getElem?_renumber, hv]
    rfl

theorem renumber_fits {b : ℤ} : (∀ x ∈ renumber 1 vs, x.version ≤ b) ↔ vs = [] ∨ (vs.length : ℤ) ≤ b := by
  constructor
  · intro h
    rcases vs.eq_nil_or_concat' with rfl | ⟨front, last, rfl⟩
    · exact .inl rfl
    · right
      have hlast : ({ last with version := 1 + (front.length : ℤ) } : LegacyRevision) ∈ renumber 1 (front ++ [last]) :=
        (mem_renumber).mpr ⟨front.length, last, by simp, rfl⟩
      have hle := h _ hlast
      rw [length_append, length_singleton]
      dsimp only at hle
      omega
  · rintro (rfl | hle) x hx
    · cases hx
    · obtain ⟨i, v, hv, rfl⟩ := (mem_renumber).mp hx
      have hlt := (List.getElem?_eq_some_iff.mp hv).1
      dsimp only
      omega

end Renumber

section Down

variable {db : Database} {versions : Table LegacyRevision.id} {t : Ledger} {done : List (LegacyFile × ℤ)}
  {backend : DbBackend}

/-- The versions of a chain come back with their sequence, and its current revision does not. -/
theorem Migrated.restorable (h : Migrated db versions t done) {d : LegacyFile × ℤ} (hd : d ∈ done) :
    (revisionsOf versions d.1 d.2).filterMap (restorableRow t) = renumber 1 (legacyOrder versions d.1.id) := by
  have hhistory : t.histories.get d.1.id = some (historyOf versions d.1 d.2) := by
    have hrow : historyOf versions d.1 d.2 ∈ t.histories.rows := by
      rw [h.histories]
      exact mem_map_of_mem hd
    exact Table.get_of_mem hrow
  have hchain : ∀ (vs : List LegacyRevision) (p : Option ℤ) (n : ℤ), (∀ v ∈ vs, v.fileId = d.1.id ∧ v.id < d.2) →
      (chainOf p n vs).filterMap (restorableRow t) = renumber n vs := by
    intro vs
    induction vs with
    | nil =>
      intro p n _
      rfl
    | cons v vs ih =>
      intro p n hvs
      obtain ⟨hfile, hlt⟩ := hvs v mem_cons_self
      have hrow : restorableRow t (v.revision p n) = some { v with version := n } := by
        unfold restorableRow
        rw [show (v.revision p n).historyId = d.1.id from hfile, hhistory]
        show (if some d.2 = none ∨ some d.2 ≠ some v.id then _ else none) = _
        rw [if_pos (.inr (by
          intro heq
          have hid := Option.some.inj heq
          omega)), hfile.symm]
        rfl
      unfold chainOf renumber
      rw [filterMap_cons, hrow, ih (some v.id) (n + 1) fun x hx => hvs x (mem_cons_of_mem _ hx)]
  have hcurrent : restorableRow t (currentOf versions d.1 d.2) = none := by
    unfold restorableRow
    rw [show (currentOf versions d.1 d.2).historyId = d.1.id from rfl, hhistory]
    show (if some d.2 = none ∨ some d.2 ≠ some d.2 then _ else none) = _
    rw [if_neg (by simp)]
  rw [revisionsOf_eq, filterMap_append, hchain _ none 1 fun v hv => ?_, filterMap_cons, hcurrent]
  · exact append_nil _
  · obtain ⟨hrow, hfile⟩ := fileId_of_mem_legacyOrder hv
    exact ⟨hfile, h.above d hd v hrow⟩

/-- The rows that `down` inserts. -/
def restoredRows (versions : Table LegacyRevision.id) (done : List (LegacyFile × ℤ)) : List LegacyRevision :=
  done.flatMap fun d => renumber 1 (legacyOrder versions d.1.id)

theorem Migrated.restoredRows (h : Migrated db versions t done) :
    t.revisions.rows.filterMap (restorableRow t) = restoredRows versions done := by
  rw [h.revisions, filterMap_flatMap]
  unfold RevisionLedger.restoredRows
  exact congrArg List.flatten (map_congr_left fun d hd => h.restorable hd)

theorem insertVersions_ok {vs : List LegacyRevision} {u u' : Table LegacyRevision.id}
    (h : vs.foldlM (insertVersion backend) u = .ok u') :
    u'.rows = u.rows ++ vs ∧ ∀ v ∈ vs, backend.holdsInteger v.version = true := by
  induction vs generalizing u with
  | nil =>
    cases h
    exact ⟨(append_nil _).symm, fun v hv => absurd hv not_mem_nil⟩
  | cons v vs ih =>
    obtain ⟨u1, h1, h2⟩ := bind_ok h
    obtain ⟨hrows, hall⟩ := ih h2
    unfold insertVersion at h1
    split_ifs at h1 with hholds
    split at h1
    · rename_i new hnew
      cases h1
      refine ⟨?_, fun x hx => ?_⟩
      · rw [hrows, (Table.insertNew_eq_some hnew).2, append_assoc]
        rfl
      · rcases mem_cons.mp hx with rfl | hx
        · exact Bool.eq_true_of_not_eq_false hholds
        · exact hall x hx
    · cases h1

theorem insertVersions_succeeds {vs : List LegacyRevision} {u : Table LegacyRevision.id}
    (hids : ((u.rows ++ vs).map LegacyRevision.id).Nodup) (hfits : ∀ v ∈ vs, backend.holdsInteger v.version = true) :
    ∃ u', vs.foldlM (insertVersion backend) u = .ok u' := by
  induction vs generalizing u with
  | nil => exact ⟨u, rfl⟩
  | cons v vs ih =>
    obtain ⟨new, hnew⟩ : ∃ new, u.insertNew v = some new := by
      cases hnone : u.insertNew v with
      | some new => exact ⟨new, rfl⟩
      | none =>
        obtain ⟨x, hx⟩ := Table.insertNew_eq_none.mp hnone
        rw [map_append, nodup_append] at hids
        exact absurd (Table.key_of_get hx) (hids.2.2 _ (mem_map_of_mem (Table.mem_of_get hx)) _ (by simp))
    have hfirst : insertVersion backend u v = .ok new := by
      unfold insertVersion
      rw [if_neg (by simp [hfits v mem_cons_self]), hnew]
    obtain ⟨u', hu'⟩ := ih (by
      rw [(Table.insertNew_eq_some hnew).2, append_assoc]
      exact hids) fun x hx => hfits x (mem_cons_of_mem _ hx)
    refine ⟨u', ?_⟩
    exact bind_ok_iff.mpr ⟨new, hfirst, hu'⟩

/-- **When `down` can go back**: the column holds a number for each version of a file. -/
def Numbered (backend : DbBackend) (db : Database) (versions : Table LegacyRevision.id) : Prop :=
  backend = .sqlite ∨ ∀ f ∈ db.files.rows, ((versionsOf versions f.id).length : ℤ) ≤ i32Max

theorem holds_restoredRows (h : Migrated db versions t done) (hcovers : Covers db done) :
    (∀ v ∈ restoredRows versions done, backend.holdsInteger v.version = true) ↔ Numbered backend db versions := by
  have hfit : (∀ v ∈ restoredRows versions done, v.version ≤ i32Max) ↔
      ∀ f ∈ db.files.rows, ((versionsOf versions f.id).length : ℤ) ≤ i32Max := by
    have hpart : ∀ fileId, (∀ v ∈ renumber 1 (legacyOrder versions fileId), v.version ≤ i32Max) ↔
        ((versionsOf versions fileId).length : ℤ) ≤ i32Max := by
      intro fileId
      rw [renumber_fits, ← length_legacyOrder]
      constructor
      · rintro (hnil | hle)
        · rw [hnil]
          decide
        · exact hle
      · exact .inr
    constructor
    · intro hall f hf
      obtain ⟨d, hd, rfl⟩ := hcovers f hf
      exact (hpart d.1.id).mp fun v hv => hall v (mem_flatMap.mpr ⟨d, hd, hv⟩)
    · intro hall v hv
      obtain ⟨d, hd, hv⟩ := mem_flatMap.mp hv
      exact (hpart d.1.id).mpr (hall d.1 (h.files d hd)) v hv
  unfold Numbered
  rw [← hfit]
  cases backend <;> simp [DbBackend.holdsInteger]

theorem rows_restoredRows (hlegacy : Legacy db versions) (h : Migrated db versions t done) (hcovers : Covers db done) :
    ((restoredRows versions done).map fun v => (v.id, v.fileId, v.blobId, v.size, v.createdAt)).Perm
      (versions.rows.map fun v => (v.id, v.fileId, v.blobId, v.size, v.createdAt)) := by
  refine List.Perm.trans ?_ ((versions_perm hlegacy h hcovers).map _)
  unfold restoredRows
  rw [map_flatMap, map_flatMap]
  refine Perm.of_eq ?_
  exact congrArg List.flatten (map_congr_left fun d _ => rows_renumber 1 _)

theorem ascending_legacyOrder (versions : Table LegacyRevision.id) (fileId : ℤ) :
    (legacyOrder versions fileId).Pairwise fun a b => a.cursor < b.cursor := by
  have hboth := Keyset.behind_ascending.and (Keyset.nodup_behind (nodup_cursors versions fileId) : (legacyOrder versions fileId).Nodup)
  refine hboth.imp_of_mem fun ha hb hab => lt_of_le_of_ne hab.1 fun heq => hab.2 ?_
  have hid := congrArg (fun k => (ofLex k).2) heq
  exact Table.eq_of_key (fileId_of_mem_legacyOrder ha).1 (fileId_of_mem_legacyOrder hb).1 hid

theorem lt_iff_index {l : List LegacyRevision} {a b : LegacyRevision} {i j : ℕ}
    (hl : l.Pairwise fun a b => a.cursor < b.cursor) (ha : l[i]? = some a) (hb : l[j]? = some b) :
    a.cursor < b.cursor ↔ i < j := by
  obtain ⟨hi, rfl⟩ := List.getElem?_eq_some_iff.mp ha
  obtain ⟨hj, rfl⟩ := List.getElem?_eq_some_iff.mp hb
  have hpairs := pairwise_iff_getElem.mp hl
  constructor
  · intro hlt
    by_contra hge
    rcases Nat.lt_or_ge j i with hji | hij
    · exact absurd hlt (lt_asymm (hpairs j i hj hi hji))
    · obtain rfl : i = j := by omega
      exact absurd hlt (lt_irrefl _)
  · exact hpairs i j hi hj

theorem mem_restoredRows {a a' : LegacyRevision} (ha : a ∈ versions.rows)
    (ha' : a' ∈ restoredRows versions done) (hid : a'.id = a.id) :
    ∃ i : ℕ, (legacyOrder versions a.fileId)[i]? = some a ∧ a'.version = 1 + i := by
  obtain ⟨d, hd, ha'⟩ := mem_flatMap.mp ha'
  obtain ⟨i, v, hv, rfl⟩ := mem_renumber.mp ha'
  obtain ⟨hrow, hfile⟩ := fileId_of_mem_legacyOrder (mem_of_getElem? hv)
  obtain rfl : v = a := Table.eq_of_key hrow ha hid
  refine ⟨i, ?_, rfl⟩
  rw [hfile]
  exact hv

/-- **`down` after a complete run**: it goes back exactly if the numbers fit the column. -/
theorem Migrated.down (hlegacy : Legacy db versions) (h : Migrated db versions t done) (hcovers : Covers db done) :
    (∃ x restored, down backend { db with fileVersions := none, ledger := some t } = .ok x ∧ Restored db versions x restored) ↔
      Numbered backend db versions := by
  have hdown : ∀ x, RevisionLedger.down backend { db with fileVersions := none, ledger := some t } = .ok x ↔
      ∃ restored, (RevisionLedger.restoredRows versions done).foldlM (insertVersion backend) .empty = .ok restored ∧
        { db with fileVersions := some restored, ledger := none } = x := by
    intro x
    unfold RevisionLedger.down restoreLegacyHistory
    rw [← h.restoredRows]
    exact bind_ok_iff.trans (by simp only [Except.ok.injEq])
  rw [← holds_restoredRows h hcovers]
  constructor
  · rintro ⟨x, _, hx, _⟩
    obtain ⟨restored, hinsert, _⟩ := (hdown x).mp hx
    exact (insertVersions_ok hinsert).2
  · intro hfits
    have hrows := rows_restoredRows hlegacy h hcovers
    have hids : (((Table.empty : Table LegacyRevision.id).rows ++ RevisionLedger.restoredRows versions done).map
        LegacyRevision.id).Nodup := by
      have hperm := hrows.map fun c => c.1
      rw [map_map, map_map] at hperm
      exact hperm.nodup_iff.mpr versions.unique
    obtain ⟨restored, hinsert⟩ := insertVersions_succeeds hids hfits
    have hall : restored.rows = RevisionLedger.restoredRows versions done := (insertVersions_ok hinsert).1
    refine ⟨_, restored, (hdown _).mpr ⟨restored, hinsert, rfl⟩, rfl, rfl, ⟨rfl, rfl⟩, ?_, ?_⟩
    · rw [hall]
      exact hrows
    · intro a ha b hb hfile a' ha' b' hb' hida hidb
      rw [hall] at ha' hb'
      obtain ⟨i, hi, hversion⟩ := mem_restoredRows ha ha' hida
      obtain ⟨j, hj, hversion'⟩ := mem_restoredRows hb hb' hidb
      rw [← hfile] at hj
      rw [lt_iff_index (ascending_legacyOrder versions a.fileId) hi hj, hversion, hversion']
      omega

/-- **The migration preserves history**, over any attempts that are cut off and one that runs to its end; and `down` goes
back exactly if no file has more versions than the column has numbers. -/
theorem history_preserved (backend : DbBackend) (hlegacy : Legacy db versions) (cuts : List ℕ) {pages : ℕ} {x : Database}
    (hrun : up (attempts db cuts) pages = (x, .ok true)) :
    (∃ t, x.ledger = some t ∧ HistoryPreserved db versions t) ∧
      ((∃ y restored, RevisionLedger.down backend x = .ok y ∧ Restored db versions y restored) ↔ Numbered backend db versions) := by
  obtain ⟨t, done, rfl, hmigrated, hcovers⟩ := migrated_of_complete hlegacy hrun
  exact ⟨⟨t, rfl, hmigrated.preserved hlegacy hcovers⟩, hmigrated.down hlegacy hcovers⟩

end Down

def sampleFile (id blobId : ℤ) : LegacyFile where
  id := id
  blobId := blobId
  size := 7
  mimeType := "text/plain"
  createdByUserId := none
  createdByUsername := "owner"
  createdAt := 1
  updatedAt := 5

/-- Two files; the first one has versions with a gap and two with one number. -/
def sampleVersions : Table LegacyRevision.id where
  rows := [{ id := 3, fileId := 1, blobId := 4, version := 9, size := 1, createdAt := 2 },
    { id := 1, fileId := 1, blobId := 4, version := 9, size := 2, createdAt := 3 },
    { id := 2, fileId := 1, blobId := 5, version := 2, size := 3, createdAt := 4 }]
  unique := by decide

def sampleLegacy : Database where
  files := ⟨[sampleFile 1 5, sampleFile 2 4], by decide⟩
  properties := ⟨[{ entityType := "file", entityId := 1, propertyNamespace := "urn:x", propertyName := "colour", value := some "red" }],
    by decide⟩
  fileVersions := some sampleVersions
  ledger := none

theorem sample_legacy : Legacy sampleLegacy sampleVersions := ⟨rfl, rfl, by decide⟩

/-- An attempt that is cut off behind its only page, one that does not come to a page, and a complete one. -/
theorem history_preserved_sample :
    Legacy sampleLegacy sampleVersions ∧ (up (attempts sampleLegacy [1, 0]) 2).2 = .ok true ∧
      (∃ t, (up (attempts sampleLegacy [1, 0]) 2).1.ledger = some t ∧ HistoryPreserved sampleLegacy sampleVersions t) ∧
      ((∃ y restored, down .postgres (up (attempts sampleLegacy [1, 0]) 2).1 = .ok y ∧
        Restored sampleLegacy sampleVersions y restored) ↔ Numbered .postgres sampleLegacy sampleVersions) := by
  have hended : (up (attempts sampleLegacy [1, 0]) 2).2 = .ok true := by decide
  exact ⟨sample_legacy, hended, history_preserved .postgres sample_legacy [1, 0] (Prod.ext rfl hended)⟩

/-! ### More versions than numbers -/

/-- One file with `n` versions, all of one number. -/
def crowdedVersions (n : ℕ) : Table LegacyRevision.id where
  rows := (List.range n).map fun i : ℕ => { id := i + 1, fileId := 1, blobId := 4, version := 1, size := 0, createdAt := 0 }
  unique := by
    rw [map_map]
    refine List.nodup_range.map fun i j hij => ?_
    have hids : (i : ℤ) + 1 = j + 1 := hij
    omega

def crowded (n : ℕ) : Database where
  files := ⟨[sampleFile 1 5], by decide⟩
  properties := .empty
  fileVersions := some (crowdedVersions n)
  ledger := none

theorem crowded_legacy (n : ℕ) : Legacy (crowded n) (crowdedVersions n) := by
  refine ⟨rfl, rfl, fun v hv => ⟨sampleFile 1 5, mem_singleton_self _, ?_⟩⟩
  obtain ⟨i, _, rfl⟩ := mem_map.mp hv
  rfl

theorem length_crowded (n : ℕ) : (versionsOf (crowdedVersions n) 1).length = n := by
  unfold versionsOf crowdedVersions
  rw [filter_eq_self.mpr, length_map, length_range]
  intro v hv
  obtain ⟨i, _, rfl⟩ := mem_map.mp hv
  rfl

theorem crowded_fits {n : ℕ} (h : (n : ℤ) ≤ i32Max + 1) :
    Fits (crowded n) (crowdedVersions n) (firstRevisionId (crowdedVersions n)) := by
  have hmax : maxId ((crowdedVersions n).rows.map LegacyRevision.id) ≤ n := by
    unfold maxId
    cases hids : ((crowdedVersions n).rows.map LegacyRevision.id).max? with
    | none => exact Int.natCast_nonneg n
    | some m =>
      obtain ⟨v, hv, rfl⟩ := mem_map.mp (max?_mem hids)
      obtain ⟨i, hi, rfl⟩ := mem_map.mp hv
      have hlt := mem_range.mp hi
      show (i : ℤ) + 1 ≤ n
      omega
  unfold i32Max at h
  refine ⟨?_, fun f hf => ?_⟩
  · show max (maxId ((crowdedVersions n).rows.map LegacyRevision.id)) 0 + 1 + 1 ≤ 9223372036854775807
    omega
  · obtain rfl : f = sampleFile 1 5 := mem_singleton.mp hf
    rw [show (sampleFile 1 5).id = 1 from rfl, length_crowded]
    show (n : ℤ) + 2 ≤ 9223372036854775807
    omega

/-- On PostgreSQL a file with 2147483648 versions is migrated, and `down` fails. -/
theorem crowded_stuck : ¬ ∀ (backend : DbBackend) (db : Database) (versions : Table LegacyRevision.id), Legacy db versions →
    ∀ (cuts : List ℕ) (pages : ℕ) (x : Database), up (attempts db cuts) pages = (x, .ok true) →
      (∃ t, x.ledger = some t ∧ HistoryPreserved db versions t) ∧
        ∃ y restored, down backend x = .ok y ∧ Restored db versions y restored := by
  intro hall
  have hsize : ((2147483648 : ℕ) : ℤ) ≤ i32Max + 1 := by decide
  have hlegacy := crowded_legacy 2147483648
  obtain ⟨x, hrun⟩ := up_ends hlegacy (crowded_fits hsize) (show (crowded 2147483648).files.rows.length < 2 by decide)
  have hattempt : up (attempts (crowded 2147483648) []) 2 = (x, .ok true) := hrun
  have hback := (hall .postgres _ _ hlegacy [] 2 x hattempt).2
  obtain ⟨t, done, rfl, hmigrated, hcovers⟩ := migrated_of_complete hlegacy hattempt
  rcases (hmigrated.down hlegacy hcovers).mp hback with hsqlite | hnumbers
  · cases hsqlite
  · have hlength := hnumbers (sampleFile 1 5) (mem_singleton_self _)
    rw [show (sampleFile 1 5).id = 1 from rfl, length_crowded] at hlength
    exact absurd hlength (by decide)

end AsterDrive.RevisionLedger
