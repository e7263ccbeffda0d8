import AsterDrive.Lib.Keyset
import AsterDrive.Sharing.Shares
import AsterDrive.Storage.Migration
import AsterDrive.Upload.Session
import AsterDrive.Workspace.BlobCleanup

/-!
# Storage/ForcedPurge — the task that destroys what a lost policy held

`services/task/storage_policy_forced_purge.rs` as a state machine. A worker that claims the task checks the policy,
and unless the cursor has moved it compares the impact with the one that was confirmed and abandons the upload
sessions. Then it lists a page of affected files, purges them in batches of one owner each, and persists the cursor
after each batch; last it removes the blob rows and the policy.

A step is one statement, one transaction or the outcome of a driver call. The checks of the lease and the progress
writes between them can only end an attempt, as `crash` does.
-/

namespace AsterDrive.Storage.ForcedPurge

open Db Sharing

/-! ### The tables -/

/-- `storage_policy::Model`: what the impact identity reads. -/
structure StoragePolicy where
  id : ℕ
  name : String
  updatedAt : ℕ
  deriving DecidableEq

/-- `upload_session::Model`: what a policy sees of it. -/
structure PolicySession where
  id : String
  policyId : ℕ
  status : Upload.UploadSessionStatus
  expiresAt : ℕ

/-- `StoragePolicyForcedPurgeRuntime`, without the byte count that nothing reads. -/
structure Runtime where
  lastProcessedFileId : ℕ := 0
  purgedFiles : ℕ := 0
  deletedBlobRecords : ℕ := 0

structure World where
  db : Db
  policies : Table StoragePolicy.id
  /-- The policy of each placement target. -/
  placementTargets : List ℕ
  sessions : Table PolicySession.id
  shares : Shares
  /-- `background_tasks.runtime_json` of the task. -/
  runtime : Option Runtime := none
  succeeded : Bool := false

/-- The payload of the task, and the digest of an impact, from outside. -/
structure Payload (ι : Type) where
  policyId : ℕ
  policyUpdatedAt : ℕ
  impactDigest : String
  digest : ι → String

/-! ### What is affected -/

/-- The blob is a row of the policy. -/
def inPolicy (db : Db) (policyId : ℕ) (blobId : Option ℕ) : Bool :=
  ∃ b ∈ db.blobs.rows, blobId = some b.id ∧ b.policyId = policyId

/-- The file has an unretired revision whose blob is a row of the policy. -/
def affects (db : Db) (policyId fileId : ℕ) : Bool :=
  ∃ h ∈ db.histories.rows, h.fileId = some fileId ∧
    ∃ r ∈ db.revisions.rows, r.historyId = h.id ∧ r.retired = false ∧ inPolicy db policyId r.blobId

def affectedFileIds (db : Db) (policyId : ℕ) : List ℕ :=
  (db.histories.rows.filterMap FileRevisionHistory.fileId).dedup.filter (affects db policyId)

/-! ### The preview -/

/-- `StoragePolicyBlobSummary` -/
structure BlobSummary where
  count : ℕ
  totalSize : ℕ
  deriving DecidableEq

def summarizeBlobsByPolicy (db : Db) (policyId : ℕ) : BlobSummary where
  count := db.blobs.affected fun b => b.policyId = policyId
  totalSize := ((db.blobs.rows.filter fun b => b.policyId = policyId).map FileBlob.size).sum

structure StoragePolicyPurgeImpact where
  fileCount : ℕ
  trashFileCount : ℕ
  affectedRevisionCount : ℕ
  affectedLogicalBytes : ℕ
  directShareCount : ℕ
  deriving DecidableEq

/-- `summarize_storage_policy_purge_impact` -/
def summarizePurgeImpact (db : Db) (shares : Shares) (policyId : ℕ) : StoragePolicyPurgeImpact where
  fileCount := db.files.affected fun f => affects db policyId f.id
  trashFileCount := db.files.affected fun f => affects db policyId f.id ∧ f.deletedAt.isSome
  affectedRevisionCount := db.revisions.affected fun r => r.retired = false ∧ inPolicy db policyId r.blobId ∧
    ∃ h ∈ db.histories.rows, h.id = r.historyId ∧ ∃ f ∈ db.files.rows, h.fileId = some f.id
  affectedLogicalBytes := ((db.revisions.rows.filter fun r => r.retired = false ∧
    ∃ h ∈ db.histories.rows, h.id = r.historyId ∧ ∃ id ∈ affectedFileIds db policyId, h.fileId = some id).map
      FileRevision.logicalSize).sum
  directShareCount := shares.affected fun s => ∃ id ∈ affectedFileIds db policyId, s.fileId = some id

def isActive (now : ℕ) (s : PolicySession) : Bool :=
  now < s.expiresAt ∧ (s.status = .uploading ∨ s.status = .assembling ∨ s.status = .presigned)

namespace World

variable (x : World) (policyId : ℕ)

/-- `count_targets_by_policy` -/
def targets : ℕ := x.placementTargets.count policyId

/-- `count_active_by_policy` -/
def activeSessions (now : ℕ) : ℕ := x.sessions.affected fun s => s.policyId = policyId ∧ isActive now s

/-- `count_by_policy` of the upload sessions. -/
def sessionCount : ℕ := x.sessions.affected fun s => s.policyId = policyId

end World

/-- `ImpactIdentity` of `build_forced_purge_preview`. -/
structure ImpactIdentity where
  policy : StoragePolicy
  blobs : BlobSummary
  impact : StoragePolicyPurgeImpact
  placementTargetCount : ℕ
  uploadSessionCount : ℕ

/-- What a preview reads when nothing else happens. -/
def previewOf (x : World) (policy : StoragePolicy) (now : ℕ) : ImpactIdentity where
  policy := policy
  blobs := summarizeBlobsByPolicy x.db policy.id
  impact := summarizePurgeImpact x.db x.shares policy.id
  placementTargetCount := x.targets policy.id
  uploadSessionCount := x.activeSessions policy.id now

/-! ### Batches -/

structure ScopedFileBatch where
  scope : WorkspaceResourceScope
  files : List File
  deriving DecidableEq

/-- `resource_scope_for_file` -/
def resourceScopeForFile (file : File) : Except AsterError WorkspaceResourceScope :=
  match file.workspace with
  | some scope => .ok scope
  | none => .error (internalError ("forced purge file #" ++ toString file.id ++ " has no resource owner"))

/-- A file joins the last batch, or begins one. -/
def joinBatch (batches : List ScopedFileBatch) (file : File) (scope : WorkspaceResourceScope) : List ScopedFileBatch :=
  match batches.getLast? with
  | none => [⟨scope, [file]⟩]
  | some last =>
    if last.scope = scope then batches.dropLast ++ [{ last with files := last.files ++ [file] }]
    else batches ++ [⟨scope, [file]⟩]

/-- `contiguous_scope_batches` -/
def contiguousScopeBatches (files : List File) : Except AsterError (List ScopedFileBatch) :=
  files.foldlM (fun batches file => joinBatch batches file <$> resourceScopeForFile file) []

def ScopedFileBatch.lastFileId (batch : ScopedFileBatch) : ℕ := (batch.files.getLast?.map File.id).getD 0

/-! ### Where a worker stands -/

/-- Where an attempt stands. -/
inductive Phase
  | idle
  | failed (error : AsterError)
  | checkPolicy
  | previewPolicy
  | previewBlobs (policy : StoragePolicy)
  | previewImpact (policy : StoragePolicy) (blobs : BlobSummary)
  | previewTargets (policy : StoragePolicy) (blobs : BlobSummary) (impact : StoragePolicyPurgeImpact)
  | previewSessions (policy : StoragePolicy) (blobs : BlobSummary) (impact : StoragePolicyPurgeImpact) (targets : ℕ)
  | findSessions
  | abandon (session : String) (rest : List String)
  | list
  | load (fileIds : List ℕ)
  | purge (batch : ScopedFileBatch) (rest : List ScopedFileBatch)
  /-- The batch is purged: cleanups of its blobs, and then the cursor. -/
  | settle (lastFileId purged : ℕ) (cleanups : List Cleanup) (rest : List ScopedFileBatch)
  | sweep
  | countFiles (blobId : ℕ) (rest : List ℕ)
  | countRevisions (blobId currentRefs : ℕ) (rest : List ℕ)
  | deleteBlob (blobId : ℕ) (rest : List ℕ)
  | persistSweep
  | findPolicy
  | countBlobs
  | countTargets
  | countSessions
  | deletePolicy
  | markSucceeded
  deriving DecidableEq

/-- A worker: its copy of the runtime, and where it stands. -/
structure Worker where
  runtime : Runtime := {}
  phase : Phase := .idle

/-- How a step ends. -/
inductive Act
  | claim
  /-- The call is carried out; the clock. -/
  | ok (now : ℕ)
  /-- The call fails without effect. -/
  | fails
  /-- One of the cleanups that run side by side makes its next call. -/
  | cleanup (index : ℕ) (succeeds : Bool)
  | crash

def forcedPurgeFileBatchSize : ℕ := 100

def saturatingAdd (a b : ℕ) : ℕ := min (a + b) i64Max

def validationError (message : String) : AsterError := .validationError { message }

def storagePolicyNotFound (policyId : ℕ) : AsterError :=
  .storagePolicyNotFound { message := "policy #" ++ toString policyId }

/-! ### The statements of the task -/

/-- `find_files_referencing_policy_blobs_paginated`: the ids, and then the rows. -/
def listFileIds (db : Db) (policyId afterFileId : ℕ) : List ℕ :=
  Keyset.page id (some afterFileId) forcedPurgeFileBatchSize (affectedFileIds db policyId)

def loadFiles (db : Db) (ids : List ℕ) : List File :=
  Keyset.behind File.id none (db.files.rows.filter fun f => f.id ∈ ids)

/-- `find_blobs_by_policy_paginated` from the beginning. -/
def blobsOfPolicy (db : Db) (policyId : ℕ) : List FileBlob :=
  Keyset.page FileBlob.id (some 0) forcedPurgeFileBatchSize (db.blobs.rows.filter fun b => b.policyId = policyId)

/-- `share_repo::delete_by_file_ids` -/
def deleteSharesByFileIds (t : Shares) (ids : List ℕ) : Shares := t.deleteRows fun s => ∃ id ∈ ids, s.fileId = some id

/-- `policy::delete` without `force`: what stands in its way. -/
def policyDeleteBlocker (blobs targets sessions : ℕ) : Option AsterError :=
  if 0 < blobs then
    some (.validationError { message := "cannot delete policy: " ++ toString blobs ++ " blob(s) still reference it"
                             apiCode := some .policyBlobReferencesExist })
  else if 0 < targets then
    some (validationError ("cannot delete policy: " ++ toString targets ++ " placement target(s) still reference it"))
  else if 0 < sessions then
    some (.validationError
      { message := "cannot delete policy: " ++ toString sessions ++ " upload session(s) still reference it"
        apiCode := some .policyUploadSessionsExist })
  else none

/-! ### The steps -/

namespace Worker

def goto (t : Worker) (phase : Phase) : Worker := { t with phase }

def fail (t : Worker) (error : AsterError) : Worker := t.goto (.failed error)

end Worker

/-- The next batch, or the next page. -/
def nextBatch : List ScopedFileBatch → Phase
  | [] => .list
  | batch :: rest => .purge batch rest

def nextSession : List String → Phase
  | [] => .list
  | session :: rest => .abandon session rest

def nextBlob : List ℕ → Phase
  | [] => .persistSweep
  | blobId :: rest => .countFiles blobId rest

/-- The first check of the process; a cursor that has moved skips the validation. -/
def afterCheck (t : Worker) : Phase := if t.runtime.lastProcessedFileId = 0 then .previewPolicy else .list

variable (cfg : Payload ImpactIdentity)

/-- The last read of the preview, and the comparison. -/
def afterPreview (t : Worker) (preview : ImpactIdentity) : Worker :=
  if cfg.digest preview ≠ cfg.impactDigest then
    t.fail (validationError "forced purge impact changed before execution; create a new task")
  else if preview.placementTargetCount ≠ 0 then
    t.fail (validationError "storage policy gained placement targets before purge")
  else t.goto .findSessions

/-- The purge of one batch, a transaction. -/
def runPurge (x : World) (batch : ScopedFileBatch) : Except AsterError (List ℕ × World) :=
  match purgeFilesOn batch.scope batch.files x.db with
  | .error e => .error e
  | .ok (ids, db) => .ok (ids, { x with db, shares := deleteSharesByFileIds x.shares ids })

/-- The transaction of `policy::delete`. -/
def deletePolicy (x : World) : Except AsterError World :=
  if (x.policies.get cfg.policyId).isNone then .error (storagePolicyNotFound cfg.policyId)
  else
    match policyDeleteBlocker (x.db.blobs.affected fun b => b.policyId = cfg.policyId) (x.targets cfg.policyId)
      (x.sessionCount cfg.policyId) with
    | some e => .error e
    | none => .ok { x with policies := x.policies.deleteWhere fun p => p.id = cfg.policyId }

/-- The next statement of an attempt, carried out. -/
def proceed (x : World) (t : Worker) (now : ℕ) : Option (World × Worker) :=
  match t.phase with
  | .idle | .failed _ => none
  | .checkPolicy =>
    match x.policies.get cfg.policyId with
    | none => some (x, t.fail (storagePolicyNotFound cfg.policyId))
    | some policy =>
      if policy.updatedAt ≠ cfg.policyUpdatedAt then
        some (x, t.fail (validationError "storage policy changed after forced purge task was created"))
      else some (x, t.goto (afterCheck t))
  | .previewPolicy =>
    match x.policies.get cfg.policyId with
    | none => some (x, t.fail (storagePolicyNotFound cfg.policyId))
    | some policy => some (x, t.goto (.previewBlobs policy))
  | .previewBlobs policy =>
    some (x, t.goto (.previewImpact policy (summarizeBlobsByPolicy x.db cfg.policyId)))
  | .previewImpact policy blobs =>
    some (x, t.goto (.previewTargets policy blobs (summarizePurgeImpact x.db x.shares cfg.policyId)))
  | .previewTargets policy blobs impact =>
    some (x, t.goto (.previewSessions policy blobs impact (x.targets cfg.policyId)))
  | .previewSessions policy blobs impact targets =>
    some (x, afterPreview cfg t ⟨policy, blobs, impact, targets, x.activeSessions cfg.policyId now⟩)
  | .findSessions =>
    some (x, t.goto (nextSession ((x.sessions.rows.filter fun s => s.policyId = cfg.policyId).map PolicySession.id)))
  | .abandon session rest =>
    some ({ x with sessions := x.sessions.deleteWhere fun s => s.id = session }, t.goto (nextSession rest))
  | .list =>
    match listFileIds x.db cfg.policyId t.runtime.lastProcessedFileId with
    | [] => some (x, t.goto .sweep)
    | id :: ids => some (x, t.goto (.load (id :: ids)))
  | .load fileIds =>
    match contiguousScopeBatches (loadFiles x.db fileIds) with
    | .error e => some (x, t.fail e)
    | .ok [] => some (x, t.goto .sweep)
    | .ok (batch :: rest) => some (x, t.goto (.purge batch rest))
  | .purge batch rest =>
    match runPurge x batch with
    | .error e => some (x, t.fail e)
    | .ok (ids, x') =>
      some (x', t.goto (.settle batch.lastFileId ids.length ((heldBlobs x.db ids).map .find) rest))
  | .settle lastFileId purged cleanups rest =>
    if cleanups = [] then
      let runtime := { t.runtime with lastProcessedFileId := lastFileId,
                                      purgedFiles := saturatingAdd t.runtime.purgedFiles purged }
      some ({ x with runtime := some runtime }, ⟨runtime, nextBatch rest⟩)
    else none
  | .sweep =>
    match blobsOfPolicy x.db cfg.policyId with
    | [] => some (x, t.goto .findPolicy)
    | b :: bs => some (x, t.goto (.countFiles b.id (bs.map FileBlob.id)))
  | .countFiles blobId rest =>
    some (x, t.goto (.countRevisions blobId (x.db.files.affected fun f => f.blobId = blobId) rest))
  | .countRevisions blobId currentRefs rest =>
    let historicalRefs := countNonCurrentBlobRefs x.db blobId
    if 0 < currentRefs ∨ 0 < historicalRefs then
      some (x, t.fail (internalError ("forced purge blob #" ++ toString blobId ++ " still has " ++ toString currentRefs
        ++ " current and " ++ toString historicalRefs ++ " historical reference(s)")))
    else some (x, t.goto (.deleteBlob blobId rest))
  | .deleteBlob blobId rest =>
    match Migration.deleteBlobById x.db blobId with
    | .error e => some (x, t.fail e)
    | .ok db =>
      let deleted := x.db.blobs.affected fun b => b.id = blobId
      some ({ x with db },
        ⟨{ t.runtime with deletedBlobRecords := saturatingAdd t.runtime.deletedBlobRecords deleted }, nextBlob rest⟩)
  | .persistSweep => some ({ x with runtime := some t.runtime }, t.goto .sweep)
  | .findPolicy =>
    some (x, if (x.policies.get cfg.policyId).isNone then t.fail (storagePolicyNotFound cfg.policyId)
      else t.goto .countBlobs)
  | .countBlobs =>
    match policyDeleteBlocker (x.db.blobs.affected fun b => b.policyId = cfg.policyId) 0 0 with
    | some e => some (x, t.fail e)
    | none => some (x, t.goto .countTargets)
  | .countTargets =>
    match policyDeleteBlocker 0 (x.targets cfg.policyId) 0 with
    | some e => some (x, t.fail e)
    | none => some (x, t.goto .countSessions)
  | .countSessions =>
    match policyDeleteBlocker 0 0 (x.sessionCount cfg.policyId) with
    | some e => some (x, t.fail e)
    | none => some (x, t.goto .deletePolicy)
  | .deletePolicy =>
    match deletePolicy cfg x with
    | .error e => some (x, t.fail e)
    | .ok x' => some (x', t.goto .markSucceeded)
  | .markSucceeded => some ({ x with succeeded := true }, t.goto .idle)

/-- A step of a worker. -/
def step (x : World) (t : Worker) : Act → Option (World × Worker)
  | .claim =>
    match t.phase with
    | .idle | .failed _ =>
      if x.succeeded then none else some (x, ⟨x.runtime.getD {}, .checkPolicy⟩)
    | _ => none
  | .ok now => proceed cfg x t now
  | .fails =>
    match t.phase with
    | .idle | .failed _ => none
    | _ => some (x, t.fail (databaseError "statement failed"))
  | .cleanup index succeeds =>
    match t.phase with
    | .settle lastFileId purged cleanups rest =>
      match cleanups[index]? with
      | none => none
      | some c =>
        let r := stepCleanup x.db succeeds c
        some ({ x with db := r.1 },
          t.goto (.settle lastFileId purged (cleanups.take index ++ r.2.toList ++ cleanups.drop (index + 1)) rest))
    | _ => none
  | .crash => some (x, t.goto .idle)

end AsterDrive.Storage.ForcedPurge
