import AsterDrive.Migrations.RevisionLedger

/-!
# HistoryPreserved — the revision ledger has the legacy history

`revisionsOf` is what a file's revisions are meant to be: its versions in the order of their numbers and ids, and the
current content behind them. `Migrated` says that a ledger is that of some of the files and of nothing else. Every page
that is committed keeps it (`backfillPage_ok`), whichever attempt commits it, and an attempt that runs to its end has met
every file.
-/

namespace AsterDrive.RevisionLedger

open List Keyset

/-! ### What a file's revisions are -/

/-- The versions of a file, in the order in which they become revisions. -/
def legacyOrder (versions : Table LegacyRevision.id) (fileId : ℤ) : List LegacyRevision :=
  Keyset.behind LegacyRevision.cursor none (versionsOf versions fileId)

/-- A version as a revision. -/
def LegacyRevision.revision (v : LegacyRevision) (predecessor : Option ℤ) (sequence : ℤ) : FileRevision where
  id := v.id
  historyId := v.fileId
  sequence := sequence
  predecessorRevisionId := predecessor
  blobId := some v.blobId
  logicalSize := v.size
  mimeType := none
  creatorUserId := none
  creatorDisplayName := none
  reason := "migration_history"
  createdAt := v.createdAt

/-- The content of a file as a revision. -/
def LegacyFile.revision (f : LegacyFile) (id : ℤ) (predecessor : Option ℤ) (sequence : ℤ) : FileRevision where
  id := id
  historyId := f.id
  sequence := sequence
  predecessorRevisionId := predecessor
  blobId := some f.blobId
  logicalSize := f.size
  mimeType := some f.mimeType
  creatorUserId := f.createdByUserId
  creatorDisplayName := some f.createdByUsername
  reason := "migration_current"
  createdAt := f.updatedAt

/-- Versions as a chain that goes on behind a predecessor. -/
def chainOf : Option ℤ → ℤ → List LegacyRevision → List FileRevision
  | _, _, [] => []
  | predecessor, sequence, v :: vs => v.revision predecessor sequence :: chainOf (some v.id) (sequence + 1) vs

/-- The end of a chain. -/
def lastOf (predecessor : Option ℤ) (vs : List LegacyRevision) : Option ℤ := vs.foldl (fun _ v => some v.id) predecessor

section

variable (versions : Table LegacyRevision.id) (properties : Table EntityProperty.key) (file : LegacyFile) (currentId : ℤ)

def revisionsOf : List FileRevision :=
  chainOf none 1 (legacyOrder versions file.id) ++
    [file.revision currentId (lastOf none (legacyOrder versions file.id)) (1 + (legacyOrder versions file.id).length)]

def historyOf : FileRevisionHistory where
  id := file.id
  fileId := some file.id
  currentRevisionId := some currentId
  nextSequence := 1 + (legacyOrder versions file.id).length + 1
  createdAt := file.createdAt

def propertiesOf : List FileRevisionProperty := (liveUserProperties properties file.id).map fun p => p.snapshot currentId

end

/-- The ledger is that of the files in `done`, each with the id of its current revision. -/
structure Migrated (db : Database) (versions : Table LegacyRevision.id) (t : Ledger) (done : List (LegacyFile × ℤ)) :
    Prop where
  histories : t.histories.rows = done.map fun d => historyOf versions d.1 d.2
  revisions : t.revisions.rows = done.flatMap fun d => revisionsOf versions d.1 d.2
  properties : t.properties.rows = done.flatMap fun d => propertiesOf db.properties d.1 d.2
  files : ∀ d ∈ done, d.1 ∈ db.files.rows
  above : ∀ d ∈ done, ∀ v ∈ versions.rows, v.id < d.2

section Inserts

variable {versions : Table LegacyRevision.id} {t t' : Ledger}

theorem checkedSucc_ok {n m : ℤ} {message : String} (h : checkedSucc n message = .ok m) : m = n + 1 ∧ n + 1 ≤ i64Max := by
  unfold checkedSucc at h
  split_ifs at h with hle
  exact ⟨(Except.ok.inj h).symm, hle⟩

theorem insertHistory_ok {file : LegacyFile} (h : insertHistory t file = .ok t') :
    t'.histories.rows = t.histories.rows ++
        [{ id := file.id, fileId := some file.id, nextSequence := 1, createdAt := file.createdAt }] ∧
      t'.revisions = t.revisions ∧ t'.properties = t.properties := by
  unfold insertHistory at h
  split_ifs at h
  split at h
  · rename_i histories hnew
    cases h
    exact ⟨(Table.insertNew_eq_some hnew).2, rfl, rfl⟩
  · cases h

theorem insertRevision_ok {r : FileRevision} (h : insertRevision t r = .ok t') :
    t'.revisions.rows = t.revisions.rows ++ [r] ∧ t'.histories = t.histories ∧ t'.properties = t.properties := by
  unfold insertRevision at h
  split_ifs at h
  split at h
  · rename_i revisions hnew
    cases h
    exact ⟨(Table.insertNew_eq_some hnew).2, rfl, rfl⟩
  · cases h

theorem insertProperties_ok {ps : List FileRevisionProperty} (h : ps.foldlM insertProperty t = .ok t') :
    t'.properties.rows = t.properties.rows ++ ps ∧ t'.histories = t.histories ∧ t'.revisions = t.revisions := by
  induction ps generalizing t with
  | nil =>
    cases h
    exact ⟨(append_nil _).symm, rfl, rfl⟩
  | cons p ps ih =>
    obtain ⟨t1, h1, h2⟩ := bind_ok h
    obtain ⟨hrows, hhistories, hrevisions⟩ := ih h2
    unfold insertProperty at h1
    split at h1
    · rename_i properties hnew
      cases h1
      refine ⟨?_, hhistories, hrevisions⟩
      rw [hrows, (Table.insertNew_eq_some hnew).2, append_assoc]
      rfl
    · cases h1

/-- **The versions of a file** become a chain, one behind the other. -/
theorem insertLegacyRevisions_ok {vs : List LegacyRevision} {fileId : ℤ} {c c' : Chain} (hfile : ∀ v ∈ vs, v.fileId = fileId)
    (h : vs.foldlM (insertLegacyRevision fileId) c = .ok c') :
    c'.ledger.revisions.rows = c.ledger.revisions.rows ++ chainOf c.predecessor c.sequence vs ∧
      c'.ledger.histories = c.ledger.histories ∧ c'.ledger.properties = c.ledger.properties ∧
      c'.predecessor = lastOf c.predecessor vs ∧ c'.sequence = c.sequence + vs.length := by
  induction vs generalizing c with
  | nil =>
    cases h
    refine ⟨(append_nil _).symm, rfl, rfl, rfl, ?_⟩
    simp
  | cons v vs ih =>
    obtain ⟨c1, h1, h2⟩ := bind_ok h
    obtain ⟨t, hinsert, h1⟩ := bind_ok h1
    obtain ⟨sequence, hnext, h1⟩ := bind_ok h1
    cases h1
    obtain ⟨hrows, hhistories, hproperties⟩ := insertRevision_ok hinsert
    obtain ⟨rfl, _⟩ := checkedSucc_ok hnext
    obtain ⟨hrows', hhistories', hproperties', hlast, hsequence⟩ := ih (fun x hx => hfile x (mem_cons_of_mem _ hx)) h2
    refine ⟨?_, hhistories'.trans hhistories, hproperties'.trans hproperties, hlast, ?_⟩
    · rw [hrows', hrows, append_assoc, ← hfile v mem_cons_self]
      rfl
    · rw [hsequence, length_cons]
      push_cast
      omega

theorem nodup_cursors (versions : Table LegacyRevision.id) (fileId : ℤ) :
    ((versionsOf versions fileId).map LegacyRevision.cursor).Nodup := by
  have hids : ((versionsOf versions fileId).map LegacyRevision.id).Nodup :=
    versions.unique.sublist (List.filter_sublist.map _)
  have hmap : (((versionsOf versions fileId).map LegacyRevision.cursor).map fun k => (ofLex k).2).Nodup := by
    rw [map_map]
    exact hids
  exact hmap.of_map

theorem length_legacyOrder (versions : Table LegacyRevision.id) (fileId : ℤ) :
    (legacyOrder versions fileId).length = (versionsOf versions fileId).length := by
  unfold legacyOrder behind
  rw [length_insertionSort]
  congr 1
  refine filter_eq_self.mpr fun v _ => ?_
  simp [isBehind]

theorem fileId_of_mem_legacyOrder {fileId : ℤ} {v : LegacyRevision} (h : v ∈ legacyOrder versions fileId) :
    v ∈ versions.rows ∧ v.fileId = fileId := by
  have hv := (mem_behind.mp h).1
  unfold versionsOf at hv
  rw [mem_filter, decide_eq_true_eq] at hv
  exact hv

/-- **The inner loop** goes through the versions in their order, whatever the pages are. -/
theorem backfillVersions_eq (versions : Table LegacyRevision.id) (file : LegacyFile) (t : Ledger) :
    backfillVersions versions file t =
      (legacyOrder versions file.id).foldlM (insertLegacyRevision file.id) { ledger := t } := by
  have hlength := length_legacyOrder versions file.id
  have hpages : (legacyOrder versions file.id).length < (versionsOf versions file.id).length + 1 := by omega
  obtain ⟨hended, hstate⟩ := scan_rows (ε := DbErr) (nodup_cursors versions file.id)
    (show 0 < legacyRevisionBatchSize by decide) hpages
  unfold backfillVersions
  dsimp only
  rw [hended]
  unfold legacyOrder at hstate ⊢
  cases hfold : (behind LegacyRevision.cursor none (versionsOf versions file.id)).foldlM
      (insertLegacyRevision file.id) { ledger := t } with
  | error e => rfl
  | ok c =>
    rw [hstate c hfold]
    rfl

end Inserts

/-! ### The backfill -/

section Backfill

variable {db : Database} {versions : Table LegacyRevision.id} {t t' : Ledger} {s s' : Backfill}
  {done : List (LegacyFile × ℤ)} {file : LegacyFile}

theorem Migrated.empty (db : Database) (versions : Table LegacyRevision.id) : Migrated db versions .empty [] := by
  refine ⟨rfl, rfl, rfl, fun d hd => ?_, fun d hd => ?_⟩
  · cases hd
  · cases hd

theorem updateHistoryHead_rows {hs : List FileRevisionHistory} {h : FileRevisionHistory} (ht : t.histories.rows = hs ++ [h])
    (currentId next : ℤ) : (updateHistoryHead t h.id currentId next).histories.rows =
      hs ++ [{ h with currentRevisionId := some currentId, nextSequence := next }] := by
  have hunique := t.histories.unique
  rw [ht, map_append, nodup_append] at hunique
  obtain ⟨_, _, hapart⟩ := hunique
  unfold updateHistoryHead Table.updateWhere
  dsimp only
  rw [ht, map_append]
  congr 1
  · refine (map_congr_left fun x hx => ?_).trans (map_id hs)
    have hne : x.id ≠ h.id := hapart x.id (mem_map_of_mem hx) h.id (by simp)
    simp [hne]
  · simp

/-- **A file that is migrated** joins the others. -/
theorem backfillFile_ok (h : Migrated db versions s.ledger done) (hfile : file ∈ db.files.rows)
    (hnext : ∀ v ∈ versions.rows, v.id < s.nextRevisionId) (hok : backfillFile versions db.properties s file = .ok s') :
    Migrated db versions s'.ledger (done ++ [(file, s.nextRevisionId)]) ∧ s'.nextRevisionId = s.nextRevisionId + 1 := by
  obtain ⟨t1, hhistory, hok⟩ := bind_ok hok
  obtain ⟨c, hfold, hok⟩ := bind_ok hok
  rw [backfillVersions_eq] at hfold
  obtain ⟨nextRevisionId, hid, hok⟩ := bind_ok hok
  obtain ⟨t2, hcurrent, hok⟩ := bind_ok hok
  obtain ⟨t3, hproperties, hok⟩ := bind_ok hok
  obtain ⟨nextSequence, hsequence, hok⟩ := bind_ok hok
  cases hok
  obtain ⟨hh1, hr1, hp1⟩ := insertHistory_ok hhistory
  obtain ⟨hr2, hh2, hp2, hlast, hseq⟩ := insertLegacyRevisions_ok (fun v hv => (fileId_of_mem_legacyOrder hv).2) hfold
  obtain ⟨hr3, hh3, hp3⟩ := insertRevision_ok hcurrent
  obtain ⟨hp4, hh4, hr4⟩ := insertProperties_ok hproperties
  obtain ⟨rfl, _⟩ := checkedSucc_ok hid
  obtain ⟨rfl, _⟩ := checkedSucc_ok hsequence
  refine ⟨⟨?_, ?_, ?_, fun d hd => ?_, fun d hd => ?_⟩, rfl⟩
  · have hrows : t3.histories.rows = (done.map fun d => historyOf versions d.1 d.2) ++
        [{ id := file.id, fileId := some file.id, nextSequence := 1, createdAt := file.createdAt }] := by
      rw [hh4, hh3, hh2, hh1, h.histories]
    rw [map_append]
    refine (updateHistoryHead_rows hrows s.nextRevisionId (c.sequence + 1)).trans ?_
    rw [hseq]
    rfl
  · show t3.revisions.rows = _
    rw [hr4, hr3, hr2, hr1, h.revisions, flatMap_append, append_assoc, hlast, hseq]
    simp only [flatMap_cons, flatMap_nil, append_nil]
    rfl
  · show t3.properties.rows = _
    rw [hp4, hp3, hp2, hp1, h.properties, flatMap_append]
    simp only [flatMap_cons, flatMap_nil, append_nil]
    rfl
  · rcases mem_append.mp hd with hd | hd
    · exact h.files d hd
    · rw [mem_singleton.mp hd]
      exact hfile
  · rcases mem_append.mp hd with hd | hd
    · exact h.above d hd
    · rw [mem_singleton.mp hd]
      exact hnext

theorem mem_loadBackfilledFileIds {fileIds : List ℤ} {i : ℤ} (h : Migrated db versions t done) :
    i ∈ loadBackfilledFileIds t fileIds ↔ i ∈ fileIds ∧ ∃ d ∈ done, d.1.id = i := by
  unfold loadBackfilledFileIds
  rw [h.histories, mem_filterMap]
  constructor
  · rintro ⟨x, hx, hi⟩
    obtain ⟨d, hd, rfl⟩ := mem_map.mp hx
    rw [Option.filter_eq_some_iff] at hi
    exact ⟨of_decide_eq_true hi.2, d, hd, Option.some.inj hi.1⟩
  · rintro ⟨hi, d, hd, rfl⟩
    refine ⟨_, mem_map_of_mem hd, ?_⟩
    rw [Option.filter_eq_some_iff]
    exact ⟨rfl, decide_eq_true hi⟩

/-- **A page that commits** has all its files migrated, and keeps those that were. -/
theorem backfillPage_ok {files : List LegacyFile} (h : Migrated db versions s.ledger done)
    (hfiles : ∀ f ∈ files, f ∈ db.files.rows) (hnext : ∀ v ∈ versions.rows, v.id < s.nextRevisionId)
    (hok : backfillPage versions db.properties s files = .ok s') :
    ∃ more, Migrated db versions s'.ledger (done ++ more) ∧ s.nextRevisionId ≤ s'.nextRevisionId ∧
      ∀ f ∈ files, ∃ d ∈ done ++ more, d.1 = f := by
  have hcompleted : ∀ f ∈ files, f.id ∈ loadBackfilledFileIds s.ledger (files.map LegacyFile.id) → ∃ d ∈ done, d.1 = f := by
    intro f hf hin
    obtain ⟨_, d, hd, hid⟩ := (mem_loadBackfilledFileIds h).mp hin
    exact ⟨d, hd, Table.eq_of_key (h.files d hd) (hfiles f hf) hid⟩
  unfold backfillPage at hok
  generalize loadBackfilledFileIds s.ledger (files.map LegacyFile.id) = completed at hok hcompleted
  induction files generalizing s done with
  | nil =>
    cases hok
    refine ⟨[], ?_, le_refl _, fun f hf => ?_⟩
    · rw [append_nil]
      exact h
    · cases hf
  | cons f files ih =>
    rw [foldlM_cons] at hok
    obtain ⟨s1, h1, h2⟩ := bind_ok hok
    have hrest : ∀ x ∈ files, x ∈ db.files.rows := fun x hx => hfiles x (mem_cons_of_mem _ hx)
    split_ifs at h1 with hin
    · cases h1
      obtain ⟨more, hmore, hle, hall⟩ := ih h hrest hnext h2 (fun x hx => hcompleted x (mem_cons_of_mem _ hx))
      refine ⟨more, hmore, hle, fun x hx => ?_⟩
      rcases mem_cons.mp hx with rfl | hx
      · obtain ⟨d, hd, rfl⟩ := hcompleted x mem_cons_self hin
        exact ⟨d, mem_append_left _ hd, rfl⟩
      · exact hall x hx
    · obtain ⟨hfile, hid⟩ := backfillFile_ok h (hfiles f mem_cons_self) hnext h1
      obtain ⟨more, hmore, hle, hall⟩ := ih hfile hrest (fun v hv => by
          have hlt := hnext v hv
          omega) h2 (fun x hx hx' => by
          obtain ⟨d, hd, rfl⟩ := hcompleted x (mem_cons_of_mem _ hx) hx'
          exact ⟨d, mem_append_left _ hd, rfl⟩)
      refine ⟨(f, s.nextRevisionId) :: more, ?_, by omega, fun x hx => ?_⟩
      · rwa [append_assoc] at hmore
      · rw [append_cons]
        rcases mem_cons.mp hx with rfl | hx
        · exact ⟨(x, s.nextRevisionId), by simp, rfl⟩
        · exact hall x hx

theorem le_maxId {ids : List ℤ} {i : ℤ} (h : i ∈ ids) : i ≤ maxId ids := by
  unfold maxId
  cases hmax : ids.max? with
  | none =>
    rw [max?_eq_none_iff.mp hmax] at h
    cases h
  | some m => exact (max?_eq_some_iff.mp hmax).2 i h

theorem findNextRevisionId_ok {next : ℤ} (h : findNextRevisionId versions t = .ok next) :
    (∀ v ∈ versions.rows, v.id < next) ∧ ∀ r ∈ t.revisions.rows, r.id < next := by
  obtain ⟨rfl, _⟩ := checkedSucc_ok h
  constructor
  · intro v hv
    have hle := le_maxId (mem_map_of_mem (f := LegacyRevision.id) hv)
    omega
  · intro r hr
    have hle := le_maxId (mem_map_of_mem (f := FileRevision.id) hr)
    omega

/-- Every file is migrated. -/
def Covers (db : Database) (done : List (LegacyFile × ℤ)) : Prop := ∀ f ∈ db.files.rows, ∃ d ∈ done, d.1 = f

/-- **The loop over the pages of files**, wherever it is cut off. -/
theorem backfillLedger_ok (h : Migrated db versions t done) {pages : ℕ} {ended : Except DbErr Bool}
    (hrun : backfillLedger versions db.properties db.files t pages = (t', ended)) :
    ∃ more, Migrated db versions t' (done ++ more) ∧ (ended = .ok true → Covers db (done ++ more)) := by
  unfold backfillLedger at hrun
  split at hrun
  · cases hrun
    refine ⟨[], ?_, fun hended => by cases hended⟩
    rw [append_nil]
    exact h
  · rename_i next hfind
    cases hrun
    -- the files up to the cursor are migrated
    let I : Option ℤ → Backfill → Prop := fun after s => ∃ more, Migrated db versions s.ledger (done ++ more) ∧
      (∀ v ∈ versions.rows, v.id < s.nextRevisionId) ∧
      ∀ f ∈ db.files.rows, isBehind LegacyFile.id after f = false → ∃ d ∈ done ++ more, d.1 = f
    have hstart : I none { ledger := t, nextRevisionId := next } := by
      refine ⟨[], ?_, (findNextRevisionId_ok hfind).1, fun f _ hbehind => ?_⟩
      · rw [append_nil]
        exact h
      · simp [isBehind] at hbehind
    obtain ⟨after, ⟨more, hmore, _, hdone⟩, hend⟩ := scan_induct (I := I) (fun after s s' y hI hlast hbody => by
      obtain ⟨more, hmore, hnext, hdone⟩ := hI
      obtain ⟨new, hnew, hle, hall⟩ := backfillPage_ok hmore (fun f hf => (mem_of_mem_page hf).1) hnext hbody
      rw [append_assoc] at hnew hall
      refine ⟨more ++ new, hnew, fun v hv => (hnext v hv).trans_le hle, fun f hf hbehind => ?_⟩
      have hkey : f.id ≤ y.id := by
        rw [Bool.eq_false_iff, ne_eq, isBehind_some] at hbehind
        exact not_lt.mp hbehind
      cases hafter : isBehind LegacyFile.id after f with
      | false =>
        obtain ⟨d, hd, rfl⟩ := hdone f hf hafter
        refine ⟨d, ?_, rfl⟩
        rw [← append_assoc]
        exact mem_append_left _ hd
      | true =>
        exact hall f (mem_page_of_le_last (fun a ha b hb => Table.eq_of_key ha hb) hlast hf hafter hkey))
      hstart (Prod.mk.eta (p := scan LegacyFile.id fileBackfillBatchSize db.files.rows
        (backfillPage versions db.properties) pages none { ledger := t, nextRevisionId := next })).symm
    refine ⟨more, hmore, fun hended f hf => hdone f hf ?_⟩
    exact (page_eq_nil (by decide)).mp (hend hended) f hf

/-! ### Attempts -/

/-- A database before the migration: no ledger, and versions of files that exist. -/
structure Legacy (db : Database) (versions : Table LegacyRevision.id) : Prop where
  stored : db.fileVersions = some versions
  ledger : db.ledger = none
  owned : ∀ v ∈ versions.rows, ∃ f ∈ db.files.rows, f.id = v.fileId

/-- How far the attempts have come: `file_versions` goes when every file is migrated. -/
structure Stage (db : Database) (versions : Table LegacyRevision.id) (x : Database) (done : List (LegacyFile × ℤ)) :
    Prop where
  files : x.files = db.files
  properties : x.properties = db.properties
  migrated : Migrated db versions (x.ledger.getD .empty) done
  stored : x.fileVersions = some versions ∨ x.fileVersions = none ∧ x.ledger.isSome ∧ Covers db done

theorem Legacy.stage (h : Legacy db versions) : Stage db versions db [] := by
  refine ⟨rfl, rfl, ?_, .inl h.stored⟩
  rw [h.ledger]
  exact .empty db versions

/-- **One attempt**, cut off or not. -/
theorem up_stage {x x' : Database} (h : Stage db versions x done) {pages : ℕ} {ended : Except DbErr Bool}
    (hrun : up x pages = (x', ended)) :
    ∃ more, Stage db versions x' (done ++ more) ∧ (ended = .ok true → x'.fileVersions = none) := by
  unfold up at hrun
  split at hrun
  · rename_i hversions hledger
    cases hrun
    refine ⟨[], ?_, fun hended => by cases hended⟩
    rw [append_nil]
    exact h
  · rename_i t hversions hledger
    cases hrun
    refine ⟨[], ?_, fun _ => hversions⟩
    rw [append_nil]
    exact h
  · rename_i versions' hversions
    obtain rfl : versions' = versions := by
      rcases h.stored with hsame | ⟨hnone, _⟩
      · exact Option.some.inj (hversions.symm.trans hsame)
      · rw [hnone] at hversions
        cases hversions
    split at hrun
    · rename_i t hback
      rw [h.properties, h.files] at hback
      cases hrun
      obtain ⟨more, hmore, hcovers⟩ := backfillLedger_ok h.migrated hback
      exact ⟨more, ⟨h.files, h.properties, hmore, .inr ⟨rfl, rfl, hcovers rfl⟩⟩, fun _ => rfl⟩
    · rename_i t ended' hnot hback
      rw [h.properties, h.files] at hback
      cases hrun
      obtain ⟨more, hmore, _⟩ := backfillLedger_ok h.migrated hback
      exact ⟨more, ⟨h.files, h.properties, hmore, .inl hversions⟩, fun hended => absurd hended hnot⟩

/-- Attempts that are cut off, one after the other. -/
def attempts (db : Database) (cuts : List ℕ) : Database := cuts.foldl (fun x pages => (up x pages).1) db

theorem attempts_stage {x : Database} (h : Stage db versions x done) (cuts : List ℕ) :
    ∃ more, Stage db versions (attempts x cuts) (done ++ more) := by
  induction cuts generalizing x done with
  | nil =>
    refine ⟨[], ?_⟩
    rw [append_nil]
    exact h
  | cons pages cuts ih =>
    obtain ⟨more, hmore, _⟩ : ∃ more, Stage db versions (up x pages).1 (done ++ more) ∧ _ := up_stage h rfl
    obtain ⟨more', hmore'⟩ := ih hmore
    rw [append_assoc] at hmore'
    exact ⟨more ++ more', hmore'⟩

/-- **After a complete run** the ledger is that of all files. -/
theorem migrated_of_complete (h : Legacy db versions) {cuts : List ℕ} {pages : ℕ} {x : Database}
    (hrun : up (attempts db cuts) pages = (x, .ok true)) :
    ∃ t done, x = { db with fileVersions := none, ledger := some t } ∧ Migrated db versions t done ∧ Covers db done := by
  obtain ⟨done, hstage⟩ := attempts_stage h.stage cuts
  obtain ⟨more, hlast, hdropped⟩ := up_stage hstage hrun
  rcases hlast.stored with hsome | ⟨hnone, hledger, hcovers⟩
  · rw [hdropped rfl] at hsome
    cases hsome
  · obtain ⟨t, ht⟩ := Option.isSome_iff_exists.mp hledger
    refine ⟨t, _, ?_, ?_, hcovers⟩
    · rw [← hlast.files, ← hlast.properties, ← ht, ← hnone]
    · have hmigrated := hlast.migrated
      rw [ht] at hmigrated
      exact hmigrated

end Backfill

end AsterDrive.RevisionLedger
