import AsterDrive.Lib.Lts
import AsterDrive.Lib.SortByKey
import AsterDrive.Workspace.Transactions

/-!
# Storage/Migration — the worker that moves the blobs of a policy

`services/task/storage_migration.rs` as a state machine: `Worker` is where `process_storage_policy_migration_task`
stands, `Pc` where `migrate_one_blob` stands. A step is one database transaction or one driver call; the label says
how it ends. A transaction commits or leaves no trace. A driver that writes leaves what the label says, whether it
reports success or not. The checks of the lease between two calls, and the progress writes, can only end an attempt,
as `crash` does.

`counted` is a ghost: the blob of each `advance`, in order.
-/

namespace AsterDrive.Storage.Migration

open Db

abbrev Body := List UInt8

/-! ### The checkpoint -/

/-- `CHECKPOINT_STAGE_*` -/
inductive Stage
  | preparePolicies | migrateVirtualEmpty | migrateBlobs | complete

/-- `storage_migration_checkpoint::Model`, as `create` makes it. -/
structure Checkpoint where
  stage : Stage := .preparePolicies
  lastProcessedBlobId : ℕ := 0
  scannedBlobs : ℕ := 0
  migratedBlobs : ℕ := 0
  mergedBlobs : ℕ := 0
  skippedBlobs : ℕ := 0
  failedBlobs : ℕ := 0
  migratedBytes : ℕ := 0
  renamedOpaqueBlobs : ℕ := 0
  lastError : Option String := none

/-- `BlobMigrationOutcome` and `CheckpointDelta` -/
structure BlobMigrationOutcome where
  scanned : ℕ := 0
  migrated : ℕ := 0
  merged : ℕ := 0
  skipped : ℕ := 0
  failed : ℕ := 0
  migratedBytes : ℕ := 0
  renamedOpaqueBlobs : ℕ := 0

def Checkpoint.advance (c : Checkpoint) (stage : Stage) (lastProcessedBlobId : ℕ) (delta : BlobMigrationOutcome)
    (lastError : Option String) : Checkpoint where
  stage := stage
  lastProcessedBlobId := lastProcessedBlobId
  scannedBlobs := c.scannedBlobs + delta.scanned
  migratedBlobs := c.migratedBlobs + delta.migrated
  mergedBlobs := c.mergedBlobs + delta.merged
  skippedBlobs := c.skippedBlobs + delta.skipped
  failedBlobs := c.failedBlobs + delta.failed
  migratedBytes := c.migratedBytes + delta.migratedBytes
  renamedOpaqueBlobs := c.renamedOpaqueBlobs + delta.renamedOpaqueBlobs
  lastError := lastError

def Checkpoint.setStage (c : Checkpoint) (stage : Stage) (lastError : Option String) : Checkpoint :=
  { c with stage, lastError }

/-! ### Parts of a multipart upload -/

inductive MultipartUploadMode
  | nativeStreaming
  | buffered (maxSize : ℕ)

structure MultipartStorageCapabilities where
  minPartSize : ℕ
  maxPartSize : Option ℕ
  maxParts : ℕ
  maxObjectSize : Option ℕ
  uploadMode : MultipartUploadMode

/-- `MigrationMultipartPartPlan`, without what only the dry run reads. -/
structure MigrationMultipartPartPlan where
  partSize : ℕ
  canStart : Bool

def migrationMultipartMinPartSize : ℕ := 5 * 1024 * 1024

def migrationMultipartPreferredMaxPartSize : ℕ := 64 * 1024 * 1024

def migrationMultipartHeapBudget : ℕ := 64 * 1024 * 1024

/-- `MIGRATION_MULTIPART_PART_UPLOAD_MAX_ATTEMPTS` -/
def partUploadMaxAttempts : ℕ := 3

/-- `i64::try_from` -/
def toI64 (n : ℕ) (message : String) : Except AsterError ℕ :=
  if n ≤ i64Max then .ok n else .error (internalError message)

def readerSizeOk (partSize : ℕ) : MultipartUploadMode → Bool
  | .nativeStreaming => true
  | .buffered maxSize => maxSize ≤ i64Max ∧ partSize ≤ min maxSize migrationMultipartHeapBudget

/-- `migration_multipart_part_plan`; the size of a blob is not negative. -/
def migrationMultipartPartPlan (blobSize configuredPartSize : ℕ) (capabilities : MultipartStorageCapabilities) :
    Except AsterError MigrationMultipartPartPlan := do
  let maxParts ← toI64 capabilities.maxParts "storage migration multipart max parts exceeds i64 range"
  if maxParts = 0 then
    throw (.validationError { message := "storage migration multipart provider max parts must be positive" })
  let minPartSize ← toI64 capabilities.minPartSize "storage migration multipart minimum part size exceeds i64 range"
  let configured := max (max migrationMultipartMinPartSize
    (min configuredPartSize migrationMultipartPreferredMaxPartSize)) minPartSize
  let rounded ← toI64 (blobSize + (maxParts - 1)) "storage migration multipart size overflow"
  let partSize := max configured (if blobSize = 0 then configured else rounded / maxParts)
  let counted ← toI64 (blobSize + (partSize - 1)) "storage migration multipart part count overflow"
  let partCount := if blobSize = 0 then 0 else counted / partSize
  let providerMax ← match capabilities.maxPartSize with
    | none => pure none
    | some size => some <$> toI64 size "storage migration provider max part size exceeds i64 range"
  return {
    partSize
    canStart := partCount ≤ maxParts ∧ (∀ size ∈ providerMax, partSize ≤ size) ∧
      readerSizeOk partSize capabilities.uploadMode ∧ ∀ size ∈ capabilities.maxObjectSize, blobSize ≤ size }

/-! ### What the worker reads and writes -/

inductive StoragePolicyMigrationMode
  | normal | recoverAvailable
  deriving DecidableEq

/-- The payload of the task, what the target driver can do, and three functions from outside. -/
structure Setup where
  sha256 : Body → String
  storagePathFromBlobKey : String → Except AsterError String
  inferStorageErrorKind : String → StorageErrorKind
  sourcePolicyId : ℕ
  targetPolicyId : ℕ
  mode : StoragePolicyMigrationMode
  targetMultipartPartSize : ℕ
  multipart : Option MultipartStorageCapabilities

structure Store where
  db : Db
  /-- The objects of each policy, by path. -/
  objects : ℕ → String → Option Body
  checkpoint : Checkpoint := {}
  succeeded : Bool := false
  counted : List ℕ := []

namespace Store

def setObject (s : Store) (policyId : ℕ) (path : String) (object : Option Body) : Store :=
  { s with objects := fun k q => if k = policyId ∧ q = path then object else s.objects k q }

def setStage (s : Store) (stage : Stage) : Store := { s with checkpoint := s.checkpoint.setStage stage none }

/-- `advance`, with the stage that every caller passes. -/
def advance (s : Store) (blobId lastProcessedBlobId : ℕ) (outcome : BlobMigrationOutcome)
    (lastError : Option String) : Store :=
  { s with
    checkpoint := s.checkpoint.advance .migrateBlobs lastProcessedBlobId outcome lastError
    counted := s.counted ++ [blobId] }

/-- `advance_checkpoint` for the blob that the cursor passes. -/
def advanceCheckpoint (s : Store) (blobId : ℕ) (outcome : BlobMigrationOutcome) (lastError : Option String) : Store :=
  s.advance blobId blobId outcome lastError

end Store

def skippedOne : BlobMigrationOutcome := { scanned := 1, skipped := 1 }

def migratedOne : BlobMigrationOutcome := { scanned := 1, migrated := 1 }

def mergedOne : BlobMigrationOutcome := { scanned := 1, merged := 1 }

def failedOne : BlobMigrationOutcome := { scanned := 1, failed := 1 }

/-! ### Statements -/

/-- `find_virtual_empty_blob_by_policy` -/
def findVirtualEmptyBlobByPolicy (t : Blobs) (policyId : ℕ) : Option FileBlob :=
  t.rows.find? (hasBlobKey emptySha256 policyId .virtualEmpty)

/-- `find_blob_by_hash` -/
def findBlobByHash (t : Blobs) (hash : String) (policyId : ℕ) : Option FileBlob :=
  t.rows.find? (hasBlobKey hash policyId .stored)

def migrationBatchSize : ℕ := 100

/-- `find_blobs_by_policy_paginated`, and `find_stored_blobs_by_policy_paginated` for a recovery. -/
def blobPage (cfg : Setup) (t : Blobs) (afterId : ℕ) : List FileBlob :=
  (sortByKey (fun b => (b.id : ℤ)) (t.rows.filter fun b => b.policyId = cfg.sourcePolicyId ∧ afterId < b.id ∧
    (cfg.mode = .normal ∨ b.backing = .stored))).take migrationBatchSize

/-- `blob_storage_path_exists_for_policy` -/
def blobStoragePathExistsForPolicy (t : Blobs) (policyId : ℕ) (path : String) : Bool :=
  t.rows.any fun b => b.policyId = policyId ∧ b.storagePath = some path

def blobKeyTaken : AsterError := uniqueViolation "file_blobs.hash, policy_id, backing"

/-- `move_blob_policy_if_current`: whether the row moved, unless the unique index refuses. -/
def moveBlobPolicyIfCurrent (t : Blobs) (blobId sourcePolicyId targetPolicyId : ℕ) (targetHash targetPath : String) :
    Except AsterError (Bool × Blobs) :=
  match (t.get blobId).filter fun b => b.policyId = sourcePolicyId with
  | none => .ok (false, t)
  | some b =>
    if t.rows.any (hasBlobKey targetHash targetPolicyId b.backing) then .error blobKeyTaken
    else .ok (true, t.updateRows (fun b => b.id = blobId ∧ b.policyId = sourcePolicyId)
      (fun b => { b with hash := targetHash, policyId := targetPolicyId, storagePath := some targetPath })
      fun _ => rfl)

/-- `move_virtual_empty_blob_policy_if_current` -/
def moveVirtualEmptyBlobPolicyIfCurrent (t : Blobs) (blobId sourcePolicyId targetPolicyId : ℕ) :
    Except AsterError (Bool × Blobs) :=
  match (t.get blobId).filter fun b => b.policyId = sourcePolicyId ∧ b.backing = .virtualEmpty with
  | none => .ok (false, t)
  | some b =>
    if t.rows.any (hasBlobKey b.hash targetPolicyId .virtualEmpty) then .error blobKeyTaken
    else .ok (true, t.updateRows (fun b => b.id = blobId ∧ b.policyId = sourcePolicyId ∧ b.backing = .virtualEmpty)
      (fun b => { b with policyId := targetPolicyId }) fun _ => rfl)

/-- `replace_file_blob_refs`; between a blob and itself it does nothing. -/
def replaceFileBlobRefs (t : Files) (oldBlobId newBlobId now : ℕ) : Files :=
  if oldBlobId = newBlobId then t
  else t.updateRows (fun f => f.blobId = oldBlobId)
    (fun f => { f with blobId := newBlobId, updatedAt := now }) fun _ => rfl

/-- `replace_blob_refs` -/
def replaceBlobRefs (t : Revisions) (oldBlobId newBlobId : ℕ) : Revisions :=
  t.updateRows (fun r => r.blobId = some oldBlobId ∧ r.retired = false)
    (fun r => { r with blobId := some newBlobId }) fun _ => rfl

/-- `increment_blob_ref_count_by` -/
def incrementBlobRefCountBy (t : Blobs) (id : ℕ) (delta : ℤ) : Except AsterError Blobs :=
  if delta < 0 then
    .error (internalError ("increment_blob_ref_count_by requires positive delta, got " ++ toString delta))
  else if delta = 0 then .ok t
  else if t.affected (fun b => b.id = id ∧ 0 ≤ b.refCount) = 0 then .error (blobNotFound id)
  else .ok (updateRefCounts t (fun b => b.id = id ∧ 0 ≤ b.refCount) fun b => b.refCount + delta)

/-- `delete_blob_by_id`; `ON DELETE RESTRICT` of files and of revisions. -/
def deleteBlobById (db : Db) (id : ℕ) : Except AsterError Db :=
  if (db.files.rows.any fun f => f.blobId = id) ∨ db.revisions.rows.any fun r => r.blobId = some id then
    .error (databaseError "FOREIGN KEY constraint failed")
  else .ok { db with blobs := db.blobs.deleteRows fun b => b.id = id }

/-- The four statements with which `merge_blob_records` and the recovery of the empty blob hand the references of
one row to another. -/
def transferReferences (db : Db) (old target : FileBlob) (now : ℕ) : Except AsterError Db := do
  let blobs ← incrementBlobRefCountBy db.blobs target.id old.refCount
  deleteBlobById { db with
      files := replaceFileBlobRefs db.files old.id target.id now
      revisions := replaceBlobRefs db.revisions old.id target.id
      blobs } old.id

/-! ### The transactions -/

/-- `merge_blob_records` -/
def mergeBlobRecords (s : Store) (oldBlob targetBlob : FileBlob) (now : ℕ) : Except AsterError Store := do
  let oldLocked ← findBlobById s.db.blobs oldBlob.id
  if oldLocked.policyId ≠ oldBlob.policyId then .ok (s.advanceCheckpoint oldBlob.id skippedOne none)
  else do
    let targetLocked ← findBlobById s.db.blobs targetBlob.id
    if targetLocked.hash ≠ oldLocked.hash ∨ targetLocked.size ≠ oldLocked.size then
      .error (.validationError { message := "target blob no longer matches source blob" })
    else do
      let db ← transferReferences s.db oldLocked targetLocked now
      .ok ({ s with db }.advanceCheckpoint oldLocked.id { mergedOne with migratedBytes := oldLocked.size } none)

/-- A blob on its way: `latest`, and where it goes. -/
structure Copy where
  blob : FileBlob
  sourcePath : String
  targetHash : String
  targetPath : String
  renamedOpaqueBlob : Bool

/-- What a move counts. -/
def Copy.outcome (c : Copy) : BlobMigrationOutcome :=
  { migratedOne with
    migratedBytes := c.blob.size
    renamedOpaqueBlobs := if c.renamedOpaqueBlob then 1 else 0 }

variable (cfg : Setup)

/-- The transaction that ends `migrate_one_blob`; `false`: the row was no longer in the source policy. -/
def moveBlob (s : Store) (c : Copy) : Except AsterError (Bool × Store) := do
  let (moved, blobs) ← moveBlobPolicyIfCurrent s.db.blobs c.blob.id cfg.sourcePolicyId cfg.targetPolicyId
    c.targetHash c.targetPath
  .ok (moved, { s with db := { s.db with blobs } }.advanceCheckpoint c.blob.id
    (if moved then c.outcome else skippedOne) none)

/-- The transaction of `migrate_one_blob` for an empty blob. -/
def moveVirtualEmpty (s : Store) (latest : FileBlob) : Except AsterError Store := do
  let (moved, blobs) ← moveVirtualEmptyBlobPolicyIfCurrent s.db.blobs latest.id cfg.sourcePolicyId cfg.targetPolicyId
  .ok ({ s with db := { s.db with blobs } }.advanceCheckpoint latest.id
    (if moved then migratedOne else skippedOne) none)

/-- The transaction of `migrate_recovery_virtual_empty`, which leaves the cursor alone. -/
def recoverVirtualEmpty (s : Store) (cursor : ℕ) (sourceBlob : FileBlob) (now : ℕ) :
    Option FileBlob → Except AsterError Store
  | some targetBlob => do
    let sourceLocked ← findBlobById s.db.blobs sourceBlob.id
    if sourceLocked.policyId ≠ cfg.sourcePolicyId then .ok (s.advance sourceBlob.id cursor skippedOne none)
    else do
      let targetLocked ← findBlobById s.db.blobs targetBlob.id
      if targetLocked.backing ≠ .virtualEmpty then
        .error (internalError ("recovery target blob #" ++ toString targetLocked.id ++ " is not virtual-empty"))
      else do
        let db ← transferReferences s.db sourceLocked targetLocked now
        .ok ({ s with db }.advance sourceBlob.id cursor mergedOne none)
  | none => do
    let (moved, blobs) ← moveVirtualEmptyBlobPolicyIfCurrent s.db.blobs sourceBlob.id cfg.sourcePolicyId
      cfg.targetPolicyId
    .ok ({ s with db := { s.db with blobs } }.advance sourceBlob.id cursor
      (if moved then migratedOne else skippedOne) none)

/-! ### Where a worker stands -/

/-- What follows when the object is as it should be. -/
inductive Goal
  | merge (latest target : FileBlob)
  | move (c : Copy)

/-- `verify_target_object` -/
structure Check where
  path : String
  hash : String
  size : ℕ
  goal : Goal

/-- `copy_blob_multipart` in its loop: what has been read of the source object. -/
structure Upload where
  copy : Copy
  partSize : ℕ
  offset : ℕ := 0
  read : Body := []

/-- `migrate_one_blob`, at its next transaction or call. -/
inductive Pc
  | find (blob : FileBlob)
  | skip (blobId : ℕ)
  | findVirtual (latest : FileBlob)
  | moveVirtual (latest : FileBlob)
  | findVirtualAgain (latest : FileBlob) (moveError : AsterError)
  | findTarget (latest : FileBlob)
  | merge (latest target : FileBlob)
  | openSource (c : Copy)
  | put (c : Copy) (body : Body)
  | createUpload (c : Copy) (partSize : ℕ)
  | uploadPart (u : Upload) (attempt : ℕ)
  | finishRange (u : Upload)
  | completeUpload (u : Upload)
  | probeCompleted (u : Upload) (error : AsterError)
  | abortUpload (c : Copy) (error : AsterError)
  | metadata (v : Check)
  | reread (v : Check)
  | move (c : Copy)
  /-- Without an error: the cleanup after a move that missed the row. -/
  | findReference (c : Copy) (error : Option AsterError)
  | deleteTarget (c : Copy) (error : Option AsterError)

/-- `process_storage_policy_migration_task`. -/
inductive Worker
  | idle
  | prepare
  | setStage (hasStored : Bool)
  | loadCheckpoint (hasStored : Bool)
  | setRecoveryStage (hasStored : Bool) (cursor : ℕ)
  | findRecoverySource (hasStored : Bool) (cursor : ℕ)
  | findRecoveryTarget (hasStored : Bool) (cursor : ℕ) (sourceBlob : FileBlob)
  | recoverVirtual (hasStored : Bool) (cursor : ℕ) (sourceBlob : FileBlob) (targetBlob : Option FileBlob)
  | page (cursor : ℕ)
  | blob (blobId : ℕ) (pc : Pc) (rest : List FileBlob)
  | recordFailure (blobId : ℕ) (error : AsterError) (rest : List FileBlob)
  | reload (rest : List FileBlob)
  | complete
  | countRemaining
  | markSucceeded (remaining : ℕ)

/-- How a step ends. -/
inductive Act
  /-- A worker claims the task. -/
  | claim
  /-- The call is carried out; the clock, and the next random UUID. -/
  | ok (now : ℕ) (uuid : String)
  /-- The call fails without effect. -/
  | fails (kind : StorageErrorKind) (message : String)
  /-- A driver that writes leaves this object, and may report an error. -/
  | writes (object : Option Body) (error : Option (StorageErrorKind × String))
  /-- The lease is found gone before a cleanup. -/
  | inactive
  | crash

inductive Next
  | goto (pc : Pc)
  | done
  | failed (error : AsterError)

/-! ### `migrate_one_blob` -/

/-- A statement or a transaction. -/
def database {α : Type} (s : Store) (failed : AsterError → α) (run : ℕ → String → Option (Store × α)) :
    Act → Option (Store × α)
  | .ok now uuid => run now uuid
  | .fails _ message => some (s, failed (databaseError message))
  | _ => none

/-- A read of an object that is there; without it the call can only fail. -/
def reading (s : Store) (object : Option Body) (failed : AsterError → Next) (run : Body → Next) :
    Act → Option (Store × Next)
  | .ok _ _ => object.map fun body => (s, run body)
  | .fails kind message => some (s, failed (.ofStorage kind message))
  | _ => none

/-- A transaction that fails on its own account. -/
def orFailed {α : Type} (s : Store) (failed : AsterError → α) (run : Except AsterError (Store × α)) : Store × α :=
  match run with
  | .ok r => r
  | .error e => (s, failed e)

def storageDriverError (message : String) : AsterError := .storageDriverError { message }

namespace Setup

/-- `storage_error_kind` -/
def storageErrorKind : AsterError → Option StorageErrorKind
  | .storageDriverError p => some (p.storageKind.getD (cfg.inferStorageErrorKind p.message))
  | .preconditionFailed _ => some .precondition
  | _ => none

def source (s : Store) (c : Copy) : Option Body := s.objects cfg.sourcePolicyId c.sourcePath

def target (s : Store) (path : String) : Option Body := s.objects cfg.targetPolicyId path

def setTarget (s : Store) (path : String) (object : Option Body) : Store := s.setObject cfg.targetPolicyId path object

end Setup

def stepFind (s : Store) (blob : FileBlob) : Act → Option (Store × Next) :=
  database s .failed fun _ _ =>
    match s.db.blobs.get blob.id with
    | none => some (s, .goto (.skip blob.id))
    | some latest =>
      if latest.policyId ≠ cfg.sourcePolicyId then some (s, .goto (.skip latest.id))
      else if latest.backing = .virtualEmpty then some (s, .goto (.findVirtual latest))
      else some (s, .goto (.findTarget latest))

/-- The way of a blob without an existing copy, up to its first call of a driver (`copy_blob_streaming`). -/
def startCopy (latest : FileBlob) (targetHash : String) (renamedOpaqueBlob : Bool) : Next :=
  match cfg.storagePathFromBlobKey targetHash with
  | .error e => .failed e
  | .ok targetPath =>
    match latest.storagePath with
    | none =>
      .failed (.validationError { message := "virtual-empty blobs must migrate as metadata-only records" })
    | some sourcePath =>
      let c : Copy := { blob := latest, sourcePath, targetHash, targetPath, renamedOpaqueBlob }
      match cfg.multipart with
      | none => .goto (.openSource c)
      | some capabilities =>
        match migrationMultipartPartPlan latest.size cfg.targetMultipartPartSize capabilities with
        | .error e => .failed e
        | .ok plan =>
          if latest.size ≤ plan.partSize then .goto (.openSource c)
          else if plan.canStart then .goto (.createUpload c plan.partSize)
          else .failed (.validationError { message := "target multipart capability cannot represent this migration" })

/-- `verify_existing_target`, up to its first call of the driver. -/
def verifyExistingTarget (latest target : FileBlob) : Next :=
  if target.hash ≠ latest.hash ∨ target.size ≠ latest.size then
    .failed (.validationError { message := "target blob record does not match source blob" })
  else
    match target.storagePath with
    | none => .failed (.validationError { message := "virtual-empty blobs have no target object to verify" })
    | some path => .goto (.metadata { path, hash := latest.hash, size := latest.size, goal := .merge latest target })

/-- The search for an existing copy. A random UUID is not in use. -/
def stepFindTarget (s : Store) (latest : FileBlob) : Act → Option (Store × Next) :=
  database s .failed fun _ uuid =>
    match findBlobByHash s.db.blobs latest.hash cfg.targetPolicyId with
    | none => some (s, startCopy cfg latest latest.hash false)
    | some target =>
      if isContentSha256BlobKey latest.hash then some (s, verifyExistingTarget latest target)
      else if (findBlobByHash s.db.blobs ("migration-" ++ uuid) cfg.targetPolicyId).isSome then none
      else some (s, startCopy cfg latest ("migration-" ++ uuid) true)

def stepFindVirtual (s : Store) (latest : FileBlob) (absent : Next) : Act → Option (Store × Next) :=
  database s .failed fun _ _ =>
    match findVirtualEmptyBlobByPolicy s.db.blobs cfg.targetPolicyId with
    | some target => some (s, .goto (.merge latest target))
    | none => some (s, absent)

/-- A failed transaction is followed by a second look at the target. -/
def stepMoveVirtual (s : Store) (latest : FileBlob) : Act → Option (Store × Next) :=
  database s (fun e => .goto (.findVirtualAgain latest e)) fun _ _ =>
    some (orFailed s (fun e => .goto (.findVirtualAgain latest e)) ((·, .done) <$> moveVirtualEmpty cfg s latest))

def stepMerge (s : Store) (latest target : FileBlob) : Act → Option (Store × Next) :=
  database s .failed fun now _ => some (orFailed s .failed ((·, .done) <$> mergeBlobRecords s latest target now))

def stepMove (s : Store) (c : Copy) : Act → Option (Store × Next) :=
  database s .failed fun _ _ => some (orFailed s .failed
    ((fun r => (r.2, if r.1 then .done else .goto (.findReference c none))) <$> moveBlob cfg s c))

/-- The copy is complete, and this is the digest of what was read. -/
def afterUpload (c : Copy) (body : Body) : Next :=
  if isContentSha256BlobKey c.blob.hash ∧ cfg.sha256 body ≠ c.blob.hash then
    .goto (.findReference c (some (storageDriverError ("copied blob hash mismatch for blob #" ++ toString c.blob.id))))
  else .goto (.metadata { path := c.targetPath, hash := cfg.sha256 body, size := c.blob.size, goal := .move c })

/-- `put_reader` and `put_reader_with_sha256` -/
def stepPut (s : Store) (c : Copy) (body : Body) : Act → Option (Store × Next)
  | .writes object none => some (cfg.setTarget s c.targetPath object, afterUpload cfg c body)
  | .writes object (some (kind, message)) =>
    some (cfg.setTarget s c.targetPath object, .goto (.findReference c (some (.ofStorage kind message))))
  | _ => none

def Upload.currentPartSize (u : Upload) : ℕ := min (u.copy.blob.size - u.offset) u.partSize

/-- A part is read and taken. -/
def Upload.push (u : Upload) (body : Body) : Upload :=
  { u with
    offset := u.offset + u.currentPartSize
    read := u.read ++ (body.drop u.offset).take u.currentPartSize }

/-- `while remaining > 0` -/
def nextPart (u : Upload) : Next :=
  if u.offset < u.copy.blob.size then .goto (.uploadPart u 1) else .goto (.finishRange u)

def isRetryable (kind : StorageErrorKind) : Bool := kind = .transient ∨ kind = .rateLimited

/-- `upload_multipart_part_with_retry`: one range of the source object becomes a part. The upload of the part may
fail, which `writes` stands for. -/
def stepUploadPart (s : Store) (u : Upload) (attempt : ℕ) : Act → Option (Store × Next)
  | .writes _ (some (kind, message)) =>
    if isRetryable kind ∧ attempt < partUploadMaxAttempts then some (s, .goto (.uploadPart u (attempt + 1)))
    else some (s, .goto (.abortUpload u.copy (.ofStorage kind message)))
  | a => reading s (cfg.source s u.copy) (fun e => .goto (.abortUpload u.copy e)) (fun body => nextPart (u.push body)) a

/-- `ensure_source_range_finished` -/
def stepFinishRange (s : Store) (u : Upload) : Act → Option (Store × Next) :=
  reading s (cfg.source s u.copy) (fun e => .goto (.abortUpload u.copy e)) fun body =>
    if (body.drop u.offset).isEmpty then .goto (.completeUpload u)
    else .goto (.abortUpload u.copy (storageDriverError "source object exceeds expected blob size"))

def stepCompleteUpload (s : Store) (u : Upload) : Act → Option (Store × Next)
  | .writes object none => some (cfg.setTarget s u.copy.targetPath object, afterUpload cfg u.copy u.read)
  | .writes object (some (kind, message)) =>
    some (cfg.setTarget s u.copy.targetPath object,
      if isRetryable kind then .goto (.probeCompleted u (.ofStorage kind message))
      else .goto (.abortUpload u.copy (.ofStorage kind message)))
  | _ => none

/-- The look at the object after a completion that may have taken effect. -/
def stepProbeCompleted (s : Store) (u : Upload) (error : AsterError) : Act → Option (Store × Next) :=
  reading s (cfg.target s u.copy.targetPath) (fun _ => .goto (.abortUpload u.copy error)) fun body =>
    if body.length = u.copy.blob.size then afterUpload cfg u.copy u.read else .goto (.abortUpload u.copy error)

/-- A check that fails: a copy is cleaned up, an existing object stays. -/
def Goal.failed : Goal → AsterError → Next
  | .merge _ _, e => .failed e
  | .move c, e => .goto (.findReference c (some e))

def Goal.reached : Goal → Next
  | .merge latest target => .goto (.merge latest target)
  | .move c => .goto (.move c)

def stepMetadata (s : Store) (v : Check) : Act → Option (Store × Next) :=
  reading s (cfg.target s v.path) v.goal.failed fun body =>
    if body.length ≠ v.size then
      v.goal.failed (storageDriverError ("target object size mismatch for " ++ v.path ++ ": expected "
        ++ toString v.size ++ ", got " ++ toString body.length))
    else .goto (.reread v)

def stepReread (s : Store) (v : Check) : Act → Option (Store × Next) :=
  reading s (cfg.target s v.path) v.goal.failed fun body =>
    if cfg.sha256 body ≠ v.hash then
      v.goal.failed (storageDriverError ("target object hash mismatch for " ++ v.path))
    else v.goal.reached

/-- A cleanup is over. -/
def afterCleanup : Option AsterError → Next
  | none => .done
  | some e => .failed e

/-- `target_object_is_referenced`; a failed query counts as a reference. -/
def stepFindReference (s : Store) (c : Copy) (error : Option AsterError) : Act → Option (Store × Next)
  | .ok _ _ =>
    some (s, if blobStoragePathExistsForPolicy s.db.blobs cfg.targetPolicyId c.targetPath then afterCleanup error
      else .goto (.deleteTarget c error))
  | .fails _ _ => some (s, afterCleanup error)
  | .inactive => if error.isSome then some (s, afterCleanup error) else none
  | _ => none

/-- `target_driver.delete`, whose failure is only logged. -/
def stepDeleteTarget (s : Store) (c : Copy) (error : Option AsterError) : Act → Option (Store × Next)
  | .ok _ _ | .writes none _ => some (cfg.setTarget s c.targetPath none, afterCleanup error)
  | .fails _ _ => some (s, afterCleanup error)
  | .inactive => if error.isSome then some (s, afterCleanup error) else none
  | _ => none

def stepBlob (s : Store) (a : Act) : Pc → Option (Store × Next)
  | .find blob => stepFind cfg s blob a
  | .skip blobId => database s .failed (fun _ _ => some (s.advanceCheckpoint blobId skippedOne none, .done)) a
  | .findVirtual latest => stepFindVirtual cfg s latest (.goto (.moveVirtual latest)) a
  | .moveVirtual latest => stepMoveVirtual cfg s latest a
  | .findVirtualAgain latest moveError => stepFindVirtual cfg s latest (.failed moveError) a
  | .findTarget latest => stepFindTarget cfg s latest a
  | .merge latest target => stepMerge s latest target a
  | .openSource c => reading s (cfg.source s c) .failed (fun body => .goto (.put c body)) a
  | .put c body => stepPut cfg s c body a
  | .createUpload c partSize =>
    match a with
    | .ok _ _ => some (s, nextPart { copy := c, partSize })
    | .fails kind message => some (s, .failed (.ofStorage kind message))
    | _ => none
  | .uploadPart u attempt => stepUploadPart cfg s u attempt a
  | .finishRange u => stepFinishRange cfg s u a
  | .completeUpload u => stepCompleteUpload cfg s u a
  | .probeCompleted u error => stepProbeCompleted cfg s u error a
  | .abortUpload c error =>
    match a with
    | .ok _ _ | .fails _ _ => some (s, .goto (.findReference c (some error)))
    | _ => none
  | .metadata v => stepMetadata cfg s v a
  | .reread v => stepReread cfg s v a
  | .move c => stepMove cfg s c a
  | .findReference c error => stepFindReference cfg s c error a
  | .deleteTarget c error => stepDeleteTarget cfg s c error a

/-! ### `process_storage_policy_migration_task` -/

/-- The loop over a batch: its next blob, or the next page. -/
def nextBlob (cursor : ℕ) : List FileBlob → Worker
  | [] => .page cursor
  | b :: rest => .blob b.id (.find b) rest

def afterRecovery (hasStored : Bool) (cursor : ℕ) : Worker := if hasStored then .page cursor else .complete

/-- A failed blob ends the attempt, unless a recovery has not found its object. -/
def afterFailure (blobId : ℕ) (rest : List FileBlob) (e : AsterError) : Worker :=
  if cfg.mode = .recoverAvailable ∧ cfg.storageErrorKind e = some .notFound then .recordFailure blobId e rest else .idle

def afterBlob (blobId : ℕ) (rest : List FileBlob) : Next → Worker
  | .goto pc => .blob blobId pc rest
  | .done => .reload rest
  | .failed e => afterFailure cfg blobId rest e

/-- `source_has_stored_blobs` -/
def sourceHasStoredBlobs (t : Blobs) : Bool :=
  cfg.mode = .normal ∨ t.rows.any fun b => b.policyId = cfg.sourcePolicyId ∧ b.backing = .stored

/-- A statement of the task itself; its failure ends the attempt. -/
def statement (s : Store) (a : Act) (run : ℕ → Store × Worker) : Option (Store × Worker) :=
  database s (fun _ => Worker.idle) (fun now _ => some (run now)) a

def stepWorker (s : Store) (a : Act) : Worker → Option (Store × Worker)
  | .idle =>
    match a with
    | .claim => if s.succeeded then none else some (s, .prepare)
    | _ => none
  | .prepare => statement s a fun _ => (s, .setStage (sourceHasStoredBlobs cfg s.db.blobs))
  | .setStage hasStored => statement s a fun _ => (s.setStage .migrateBlobs, .loadCheckpoint hasStored)
  | .loadCheckpoint hasStored => statement s a fun _ =>
    (s, match cfg.mode with
      | .normal => .page s.checkpoint.lastProcessedBlobId
      | .recoverAvailable => .setRecoveryStage hasStored s.checkpoint.lastProcessedBlobId)
  | .setRecoveryStage hasStored cursor => statement s a fun _ =>
    (s.setStage .migrateVirtualEmpty, .findRecoverySource hasStored cursor)
  | .findRecoverySource hasStored cursor => statement s a fun _ =>
    (s, match findVirtualEmptyBlobByPolicy s.db.blobs cfg.sourcePolicyId with
      | none => afterRecovery hasStored cursor
      | some sourceBlob => .findRecoveryTarget hasStored cursor sourceBlob)
  | .findRecoveryTarget hasStored cursor sourceBlob => statement s a fun _ =>
    (s, .recoverVirtual hasStored cursor sourceBlob (findVirtualEmptyBlobByPolicy s.db.blobs cfg.targetPolicyId))
  | .recoverVirtual hasStored cursor sourceBlob targetBlob => statement s a fun now =>
    orFailed s (fun _ => .idle)
      ((·, afterRecovery hasStored cursor) <$> recoverVirtualEmpty cfg s cursor sourceBlob now targetBlob)
  | .page cursor => statement s a fun _ =>
    (s, match blobPage cfg s.db.blobs cursor with
      | [] => .complete
      | b :: rest => .blob b.id (.find b) rest)
  | .blob blobId pc rest => (stepBlob cfg s a pc).map fun r => (r.1, afterBlob cfg blobId rest r.2)
  | .recordFailure blobId error rest => statement s a fun _ =>
    (s.advanceCheckpoint blobId failedOne (some error.payload.message), .reload rest)
  | .reload rest => statement s a fun _ => (s, nextBlob s.checkpoint.lastProcessedBlobId rest)
  | .complete => statement s a fun _ => (s.setStage .complete, .countRemaining)
  | .countRemaining => statement s a fun _ =>
    (s, .markSucceeded (s.db.blobs.affected fun b => b.policyId = cfg.sourcePolicyId))
  | .markSucceeded _ => statement s a fun _ => ({ s with succeeded := true }, .idle)

/-- A step of a worker; it can stop at any point. -/
def step (s : Store) (w : Worker) : Act → Option (Store × Worker)
  | .crash => some (s, .idle)
  | a => stepWorker cfg s a w

end AsterDrive.Storage.Migration
