import AsterDrive.Db.Schema
import Mathlib.Data.List.Sort

/-!
# RevisionRepo — the revision ledger

The functions of `revision_repo` that change the ledger. Every file has one history; a history
numbers its revisions and names the current one, and every revision names the one before it.
Property snapshots are left out: they can only make a transaction fail. The batches of fifty rows in
which `create_initial_many` writes are one list here, since they lie in one transaction.
-/

namespace AsterDrive.Db

structure NewRevision where
  blobId : ℕ
  logicalSize : ℕ
  mimeType : String
  etag : String

/-- The largest value of an `i64` column. -/
def i64Max : ℕ := 9223372036854775807

def uniqueViolation (index : String) : AsterError := databaseError ("UNIQUE constraint failed: " ++ index)

def findHistoryByFileId (s : Db) (fileId : ℕ) : Option FileRevisionHistory :=
  s.histories.rows.find? fun h => h.fileId = some fileId

/-- `lock_history_by_file_id` (and `find_history_by_file_id`). -/
def lockHistoryByFileId (fileId : ℕ) : Txn FileRevisionHistory := do
  let s ← get
  orFail (findHistoryByFileId s fileId) (internalError ("file #" ++ toString fileId ++ " has no revision history"))

/-- `insert_history`: a history without a head; `file_id` is unique. -/
def insertHistory (file : File) : Txn FileRevisionHistory := fun s =>
  if s.histories.rows.any fun h => h.fileId = some file.id then
    .error (uniqueViolation "file_revision_histories.file_id")
  else
    let mk := fun id => ({ id, fileId := some file.id, currentRevisionId := none
                           nextSequence := 2 } : FileRevisionHistory)
    .ok (mk s.histories.next, { s with histories := s.histories.insert mk fun _ => rfl })

/-- `insert_revision`; `(history_id, sequence)` is unique. -/
def insertRevision (historyId sequence : ℕ) (predecessor : Option ℕ) (input : NewRevision) :
    Txn FileRevision := fun s =>
  if s.revisions.rows.any fun r => r.historyId = historyId ∧ r.sequence = sequence then
    .error (uniqueViolation "file_revisions.history_id, sequence")
  else
    let mk := fun id =>
      ({ id, historyId, sequence, predecessorRevisionId := predecessor
         blobId := some input.blobId, logicalSize := input.logicalSize
         mimeType := some input.mimeType, etag := input.etag } : FileRevision)
    .ok (mk s.revisions.next, { s with revisions := s.revisions.insert mk fun _ => rfl })

def setCurrentRevision (historyId revisionId : ℕ) : Txn Unit := fun s =>
  let histories := s.histories.updateRows (fun h => h.id = historyId)
    (fun h => { h with currentRevisionId := some revisionId }) fun _ => rfl
  .ok ((), { s with histories })

/-- The first revision of a file repeats the file's own columns. -/
def initialRevision (file : File) (etag : String) : NewRevision :=
  { blobId := file.blobId, logicalSize := file.size, mimeType := file.mimeType, etag }

def createInitial (file : File) (etag : String) : Txn FileRevision := do
  let history ← insertHistory file
  let revision ← insertRevision history.id 1 none (initialRevision file etag)
  setCurrentRevision history.id revision.id
  pure revision

/-- The second phase of `create_initial_many`: the revision of one reloaded history. -/
def insertInitialRevision (files : List File) (etag : File → String)
    (history : FileRevisionHistory) : Txn FileRevision := do
  let fileId ← orFail history.fileId (internalError "new initial revision history lost its file id")
  let file ← orFail (files.find? fun f => f.id = fileId)
    (internalError ("new initial revision history references unexpected file #" ++ toString fileId))
  insertRevision history.id 1 none (initialRevision file (etag file))

/-- The last phase: one statement gives every new history its head. -/
def publishHeads (histories : List FileRevisionHistory) (revisions : List FileRevision) :
    Txn Unit := fun s =>
  if histories.all fun h => revisions.any fun r => r.historyId = h.id then
    let ids := histories.map FileRevisionHistory.id
    if s.histories.affected (fun h => h.id ∈ ids) ≠ histories.length then
      .error (internalError "initial revision batch did not update every history head")
    else
      let head := fun (h : FileRevisionHistory) =>
        (revisions.find? fun r => r.historyId = h.id).map FileRevision.id
      let histories := s.histories.updateRows (fun h => h.id ∈ ids)
        (fun h => { h with currentRevisionId := head h }) fun _ => rfl
      .ok ((), { s with histories })
  else .error (internalError "new history has no initial revision")

def createInitialMany (files : List File) (etag : File → String) : Txn (List FileRevision) := do
  ensure (files.map File.id).Nodup (internalError "initial revision batch contains duplicate file ids")
  let _ ← files.mapM insertHistory
  let s ← get
  let histories := s.histories.rows.filter fun h => ∃ f ∈ files, h.fileId = some f.id
  ensure (histories.length = files.length) (internalError "initial revision batch could not reload every history")
  let _ ← histories.mapM (insertInitialRevision files etag)
  let s ← get
  let revisions := s.revisions.rows.filter fun r =>
    (∃ h ∈ histories, r.historyId = h.id) ∧ r.sequence = 1
  ensure (revisions.length = files.length) (internalError "initial revision batch could not reload every revision")
  publishHeads histories revisions
  pure revisions

/-- `map_append_error` of `HeadChanged` and `EtagMismatch`. -/
def headChanged : AsterError :=
  .preconditionFailed
    { message := "file revision head changed while content was being committed"
      apiCode := some .fileModifiedDuringWrite }

def etagMismatch : AsterError :=
  .preconditionFailed { message := "file has been modified (ETag mismatch)", apiCode := some .fileEtagMismatch }

/-- The update of the history that ends `append_locked`. -/
def advanceHead (historyId : ℕ) (revision : FileRevision) : Txn Unit := fun s =>
  let histories := s.histories.updateRows (fun h => h.id = historyId)
    (fun h => { h with currentRevisionId := some revision.id, nextSequence := revision.sequence + 1 })
    fun _ => rfl
  .ok ((), { s with histories })

def appendLocked (history : FileRevisionHistory) (input : NewRevision) : Txn FileRevision := do
  let revision ← insertRevision history.id history.nextSequence history.currentRevisionId input
  ensure (revision.sequence < i64Max) (internalError "file revision sequence exhausted")
  advanceHead history.id revision
  pure revision

def append (fileId : ℕ) (expectedCurrentRevisionId : Option ℕ) (input : NewRevision) :
    Txn FileRevision := do
  let history ← lockHistoryByFileId fileId
  ensure (expectedCurrentRevisionId = none ∨ history.currentRevisionId = expectedCurrentRevisionId) headChanged
  appendLocked history input

/-- The etag test of `append_for_expected_etag`; `eq_ignore_ascii_case` folds ASCII letters. -/
def ensureEtag (fileId : ℕ) (history : FileRevisionHistory) : Option String → Txn Unit
  | none => pure ()
  | some expectedEtag => do
    let s ← get
    let currentId ← orFail history.currentRevisionId
      (internalError ("file #" ++ toString fileId ++ " revision history has no current revision"))
    let current ← orFail (s.revisions.get currentId) (internalError ("file #" ++ toString fileId
        ++ " revision history has a dangling current pointer"))
    ensure (expectedEtag.toLower = current.etag.toLower) etagMismatch

def appendForExpectedEtag (fileId : ℕ) (expectedEtag : Option String) (input : NewRevision) :
    Txn FileRevision := do
  let history ← lockHistoryByFileId fileId
  ensureEtag fileId history expectedEtag
  appendLocked history input

/-- The unretired revisions of a history. -/
def liveRevisions (s : Db) (historyId : ℕ) : List FileRevision :=
  s.revisions.rows.filter fun r => r.historyId = historyId ∧ r.retired = false

def findByIdForFile (fileId revisionId : ℕ) : Txn (Option FileRevision) := do
  let history ← lockHistoryByFileId fileId
  let s ← get
  pure ((s.revisions.get revisionId).filter fun r => r.historyId = history.id ∧ r.retired = false)

def countByFileId (fileId : ℕ) : Txn ℕ := do
  let history ← lockHistoryByFileId fileId
  let s ← get
  pure (liveRevisions s history.id).length

/-- `find_oldest_non_current`: the smallest sequence apart from the current revision. -/
def findOldestNonCurrent (fileId : ℕ) : Txn (Option FileRevision) := do
  let history ← lockHistoryByFileId fileId
  let s ← get
  let others := (liveRevisions s history.id).filter fun r => some r.id ≠ history.currentRevisionId
  pure (others.insertionSort fun a b => a.sequence ≤ b.sequence).head?

/-- The row that names `revision` as its predecessor. -/
def successorOf (s : Db) (revision : FileRevision) : Option FileRevision :=
  s.revisions.rows.find? fun r =>
    r.historyId = revision.historyId ∧ r.predecessorRevisionId = some revision.id ∧ r.retired = false

/-- `tombstone`: relink the successor, then drop the content and retire the row. -/
def tombstone (revision : FileRevision) : Txn Unit := fun s =>
  let successor := (successorOf s revision).map FileRevision.id
  let relinked := s.revisions.updateRows (fun r => some r.id = successor)
    (fun r => { r with predecessorRevisionId := revision.predecessorRevisionId }) fun _ => rfl
  let revisions := relinked.updateRows (fun r => r.id = revision.id)
    (fun r => { r with blobId := none, retired := true }) fun _ => rfl
  .ok ((), { s with revisions })

/-- `retire_histories`: the content of every live revision goes, and its blob and size are
returned. -/
def retireHistories (fileIds : List ℕ) : Txn (List (ℕ × ℕ)) := fun s =>
  let ids := (s.histories.rows.filter fun h => ∃ f ∈ fileIds, h.fileId = some f).map FileRevisionHistory.id
  let refs := (s.revisions.rows.filter fun r => r.historyId ∈ ids ∧ r.retired = false).filterMap
    fun r => r.blobId.map fun blobId => (blobId, r.logicalSize)
  let revisions := s.revisions.updateRows (fun r => r.historyId ∈ ids ∧ r.retired = false)
    (fun r => { r with blobId := none, retired := true }) fun _ => rfl
  let histories := s.histories.updateRows (fun h => h.id ∈ ids)
    (fun h => { h with fileId := none, currentRevisionId := none, retired := true }) fun _ => rfl
  .ok (refs, { s with revisions, histories })

end AsterDrive.Db
