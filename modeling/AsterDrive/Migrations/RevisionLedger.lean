import Mathlib.Data.Prod.Lex
import AsterDrive.Lib.Keyset
import AsterDrive.Lib.Result
import AsterDrive.Lib.Table

/-!
# RevisionLedger — the migration to the revision ledger

`m20260813_000001_canonical_file_revision_ledger`: `up` writes, file by file, the legacy versions of the file and its
current content as one numbered chain of revisions, commits a page of files at a time, and drops `file_versions` at the
end; `down` builds that table again from the revisions that are not current.

A page of files is one transaction. An attempt that is cut off, or that fails, leaves the pages that it has committed,
and the next one goes through all files again and skips those with a history. `up` is cut off after `pages` of them.
Public ids and etags are random and not modelled, nor are indexes that are not unique, nor the sequence counters.
-/

namespace AsterDrive.RevisionLedger

/-! ### The tables -/

/-- `files`: the columns that the migration reads. -/
structure LegacyFile where
  id : ℤ
  blobId : ℤ
  size : ℤ
  mimeType : String
  createdByUserId : Option ℤ
  createdByUsername : String
  createdAt : ℕ
  updatedAt : ℕ

/-- `file_versions` -/
structure LegacyRevision where
  id : ℤ
  fileId : ℤ
  blobId : ℤ
  version : ℤ
  size : ℤ
  createdAt : ℕ

/-- `entity_properties` -/
structure EntityProperty where
  entityType : String
  entityId : ℤ
  propertyNamespace : String
  propertyName : String
  value : Option String

structure FileRevisionHistory where
  id : ℤ
  fileId : Option ℤ
  currentRevisionId : Option ℤ := none
  nextSequence : ℤ
  createdAt : ℕ

structure FileRevision where
  id : ℤ
  historyId : ℤ
  sequence : ℤ
  predecessorRevisionId : Option ℤ
  blobId : Option ℤ
  logicalSize : ℤ
  mimeType : Option String
  creatorUserId : Option ℤ
  creatorDisplayName : Option String
  reason : String
  createdAt : ℕ

structure FileRevisionProperty where
  revisionId : ℤ
  propertyNamespace : String
  propertyName : String
  xmlValue : Option String

/-- `idx_entity_properties_unique` -/
def EntityProperty.key (p : EntityProperty) : String × ℤ × String × String :=
  (p.entityType, p.entityId, p.propertyNamespace, p.propertyName)

def FileRevisionProperty.key (p : FileRevisionProperty) : ℤ × String × String :=
  (p.revisionId, p.propertyNamespace, p.propertyName)

/-- The tables that `up` creates. -/
structure Ledger where
  histories : Table FileRevisionHistory.id
  revisions : Table FileRevision.id
  properties : Table FileRevisionProperty.key

def Ledger.empty : Ledger := ⟨.empty, .empty, .empty⟩

/-- `none` is a table that does not exist. -/
structure Database where
  files : Table LegacyFile.id
  properties : Table EntityProperty.key
  fileVersions : Option (Table LegacyRevision.id)
  ledger : Option Ledger

inductive DbErr
  | migration (message : String)
  /-- A unique key, or a value that the column does not hold. -/
  | constraint (name : String)
  deriving DecidableEq

def i64Max : ℤ := 9223372036854775807

/-- `checked_add(1)` -/
def checkedSucc (n : ℤ) (message : String) : Except DbErr ℤ :=
  if n + 1 ≤ i64Max then .ok (n + 1) else .error (.migration message)

/-! ### Inserts -/

/-- `uq_file_revision_histories_file_id` and the primary key. -/
def insertHistory (t : Ledger) (file : LegacyFile) : Except DbErr Ledger :=
  if t.histories.rows.any fun h => h.fileId = some file.id then .error (.constraint "uq_file_revision_histories_file_id")
  else
    match t.histories.insertNew { id := file.id, fileId := some file.id, nextSequence := 1, createdAt := file.createdAt } with
    | some histories => .ok { t with histories }
    | none => .error (.constraint "file_revision_histories.id")

/-- `uq_file_revisions_history_sequence` and the primary key. -/
def insertRevision (t : Ledger) (revision : FileRevision) : Except DbErr Ledger :=
  if t.revisions.rows.any fun r => r.historyId = revision.historyId ∧ r.sequence = revision.sequence then
    .error (.constraint "uq_file_revisions_history_sequence")
  else
    match t.revisions.insertNew revision with
    | some revisions => .ok { t with revisions }
    | none => .error (.constraint "file_revisions.id")

/-- Neither `DAV:` nor `system.`, letter by letter. -/
def isUserPropertyNamespace (propertyNamespace : String) : Bool :=
  propertyNamespace ≠ "DAV:" ∧ ("system.".toList.isPrefixOf propertyNamespace.toList) = false

/-- The properties of a file that its current revision takes. -/
def liveUserProperties (properties : Table EntityProperty.key) (fileId : ℤ) : List EntityProperty :=
  properties.rows.filter fun p => p.entityType = "file" ∧ p.entityId = fileId ∧ isUserPropertyNamespace p.propertyNamespace

def insertProperty (t : Ledger) (p : FileRevisionProperty) : Except DbErr Ledger :=
  match t.properties.insertNew p with
  | some properties => .ok { t with properties }
  | none => .error (.constraint "file_revision_properties")

/-- A property as a revision keeps it. -/
def EntityProperty.snapshot (p : EntityProperty) (revisionId : ℤ) : FileRevisionProperty where
  revisionId := revisionId
  propertyNamespace := p.propertyNamespace
  propertyName := p.propertyName
  xmlValue := p.value

def snapshotLiveUserProperties (properties : Table EntityProperty.key) (t : Ledger) (fileId revisionId : ℤ) :
    Except DbErr Ledger :=
  ((liveUserProperties properties fileId).map fun p => p.snapshot revisionId).foldlM insertProperty t

def updateHistoryHead (t : Ledger) (historyId currentRevisionId nextSequence : ℤ) : Ledger :=
  { t with
    histories := t.histories.updateWhere (fun h => h.id = historyId)
      (fun h => { h with currentRevisionId := some currentRevisionId, nextSequence }) fun _ => rfl }

/-! ### One file -/

/-- The order of `load_legacy_revisions_page`. -/
def LegacyRevision.cursor (v : LegacyRevision) : ℤ ×ₗ ℤ := toLex (v.version, v.id)

def versionsOf (versions : Table LegacyRevision.id) (fileId : ℤ) : List LegacyRevision :=
  versions.rows.filter fun v => v.fileId = fileId

def legacyRevisionBatchSize : ℕ := 1000

def fileBackfillBatchSize : ℕ := 500

/-- The ledger, the predecessor and the sequence of the next revision. -/
structure Chain where
  ledger : Ledger
  predecessor : Option ℤ := none
  sequence : ℤ := 1

def insertLegacyRevision (historyId : ℤ) (c : Chain) (legacy : LegacyRevision) : Except DbErr Chain := do
  let ledger ← insertRevision c.ledger
    { id := legacy.id, historyId, sequence := c.sequence, predecessorRevisionId := c.predecessor
      blobId := some legacy.blobId, logicalSize := legacy.size, mimeType := none, creatorUserId := none
      creatorDisplayName := none, reason := "migration_history", createdAt := legacy.createdAt }
  let sequence ← checkedSucc c.sequence "file revision sequence space exhausted"
  .ok { ledger, predecessor := some legacy.id, sequence }

/-- The inner loop: the pages of a file's versions. Each has a row, so there are no more pages than rows. -/
def backfillVersions (versions : Table LegacyRevision.id) (file : LegacyFile) (t : Ledger) : Except DbErr Chain :=
  let read := Keyset.scan LegacyRevision.cursor legacyRevisionBatchSize (versionsOf versions file.id)
    (fun c legacyRows => legacyRows.foldlM (insertLegacyRevision file.id) c) ((versionsOf versions file.id).length + 1)
    none { ledger := t }
  read.2.map fun _ => read.1

/-- The ledger, and `next_revision_id`. -/
structure Backfill where
  ledger : Ledger
  nextRevisionId : ℤ

/-- The body of the loop over the files of a page. -/
def backfillFile (versions : Table LegacyRevision.id) (properties : Table EntityProperty.key) (s : Backfill)
    (file : LegacyFile) : Except DbErr Backfill := do
  let t ← insertHistory s.ledger file
  let c ← backfillVersions versions file t
  let currentRevisionId := s.nextRevisionId
  let nextRevisionId ← checkedSucc s.nextRevisionId "file revision id space exhausted"
  let t ← insertRevision c.ledger
    { id := currentRevisionId, historyId := file.id, sequence := c.sequence, predecessorRevisionId := c.predecessor
      blobId := some file.blobId, logicalSize := file.size, mimeType := some file.mimeType
      creatorUserId := file.createdByUserId, creatorDisplayName := some file.createdByUsername
      reason := "migration_current", createdAt := file.updatedAt }
  let t ← snapshotLiveUserProperties properties t file.id currentRevisionId
  let nextSequence ← checkedSucc c.sequence "file revision sequence space exhausted"
  .ok { ledger := updateHistoryHead t file.id currentRevisionId nextSequence, nextRevisionId }

/-! ### `up` -/

def loadBackfilledFileIds (t : Ledger) (fileIds : List ℤ) : List ℤ :=
  t.histories.rows.filterMap fun h => h.fileId.filter fun i => i ∈ fileIds

/-- The transaction of a page of files. -/
def backfillPage (versions : Table LegacyRevision.id) (properties : Table EntityProperty.key) (s : Backfill)
    (files : List LegacyFile) : Except DbErr Backfill :=
  let completedFileIds := loadBackfilledFileIds s.ledger (files.map LegacyFile.id)
  files.foldlM (fun s file => if file.id ∈ completedFileIds then .ok s else backfillFile versions properties s file) s

/-- The greatest id, or 0. -/
def maxId (ids : List ℤ) : ℤ := ids.max?.getD 0

def findNextRevisionId (versions : Table LegacyRevision.id) (t : Ledger) : Except DbErr ℤ :=
  checkedSucc (max (maxId (versions.rows.map LegacyRevision.id)) (maxId (t.revisions.rows.map FileRevision.id)))
    "file revision id space exhausted"

/-- `backfill_ledger`, cut off after `pages` committed pages; `true` means that the loop has ended. -/
def backfillLedger (versions : Table LegacyRevision.id) (properties : Table EntityProperty.key)
    (files : Table LegacyFile.id) (t : Ledger) (pages : ℕ) : Ledger × Except DbErr Bool :=
  match findNextRevisionId versions t with
  | .error e => (t, .error e)
  | .ok nextRevisionId =>
    let (s, ended) := Keyset.scan LegacyFile.id fileBackfillBatchSize files.rows (backfillPage versions properties) pages
      none { ledger := t, nextRevisionId }
    (s.ledger, ended)

/-- `ensure_all_files_have_revision_histories` -/
def ensureAllFilesHaveRevisionHistories (files : Table LegacyFile.id) (t : Ledger) : Except DbErr Bool :=
  match files.rows.find? fun f => t.histories.rows.all fun h => h.fileId ≠ some f.id with
  | some f => .error (.migration
      ("legacy file_versions is absent but file " ++ toString f.id ++ " has no revision history"))
  | none => .ok true

/-- `Migration::up`, cut off after `pages` committed pages. `true` means that it has run to its end. -/
def up (db : Database) (pages : ℕ) : Database × Except DbErr Bool :=
  match db.fileVersions, db.ledger with
  | none, none => (db, .error (.migration
      "canonical revision migration found neither file_versions nor a resumable ledger schema"))
  | none, some t => (db, ensureAllFilesHaveRevisionHistories db.files t)
  | some versions, t =>
    match backfillLedger versions db.properties db.files (t.getD .empty) pages with
    | (t, .ok true) => ({ db with fileVersions := none, ledger := some t }, .ok true)
    | (t, ended) => ({ db with ledger := some t }, ended)

/-! ### `down` -/

inductive DbBackend
  | sqlite
  | postgres
  | mySql

def i32Max : ℤ := 2147483647

/-- What a column of type `integer` holds: SQLite has no smaller type. -/
def DbBackend.holdsInteger (backend : DbBackend) (n : ℤ) : Bool :=
  match backend with
  | .sqlite => true
  | .postgres | .mySql => n ≤ i32Max

/-- The rows of `restore_legacy_history`: the revisions that are not current, of histories with a file. -/
def restorableRow (t : Ledger) (r : FileRevision) : Option LegacyRevision := do
  let h ← t.histories.get r.historyId
  let fileId ← h.fileId
  let blobId ← r.blobId
  if h.currentRevisionId = none ∨ h.currentRevisionId ≠ some r.id then
    some { id := r.id, fileId, blobId, version := r.sequence, size := r.logicalSize, createdAt := r.createdAt }
  else none

def insertVersion (backend : DbBackend) (versions : Table LegacyRevision.id) (v : LegacyRevision) :
    Except DbErr (Table LegacyRevision.id) :=
  if backend.holdsInteger v.version = false then .error (.constraint "file_versions.version")
  else
    match versions.insertNew v with
    | some versions => .ok versions
    | none => .error (.constraint "file_versions.id")

/-- `restore_legacy_history`: one insert of all rows. -/
def restoreLegacyHistory (backend : DbBackend) (t : Ledger) : Except DbErr (Table LegacyRevision.id) :=
  (t.revisions.rows.filterMap (restorableRow t)).foldlM (insertVersion backend) .empty

/-- `Migration::down` -/
def down (backend : DbBackend) (db : Database) : Except DbErr Database :=
  match db.fileVersions, db.ledger with
  | some _, _ => .error (.migration "table file_versions already exists")
  | none, none => .error (.migration "no such table: file_revisions")
  | none, some t => do
    let versions ← restoreLegacyHistory backend t
    .ok { db with fileVersions := some versions, ledger := none }

end AsterDrive.RevisionLedger
