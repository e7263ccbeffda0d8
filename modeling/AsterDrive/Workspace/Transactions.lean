import AsterDrive.Workspace.FileRecord

/-!
# Transactions — versions, copies, purges and blob maintenance

The remaining transactions that change content: restoring and deleting a version, one round of
`cleanup_excess`, the revision a property change leaves on a controlled file, the three ways to copy
files, `purge_files_on`, and what the blob maintenance does to one row (claim, restore, delete,
reconcile).
-/

namespace AsterDrive.Db

/-! ### Versions -/

def recordNotFound (message : String) : AsterError := .recordNotFound { message }

def loadRevisionForFile (fileId revisionId : ℕ) : Txn FileRevision := do
  let revision ← findByIdForFile fileId revisionId
  orFail revision (recordNotFound "version not found")

/-- The transaction of `restore_version_inner`: the old content becomes a new revision. -/
def restoreVersionInner (scope : WorkspaceStorageScope) (file : File) (revisionId now : ℕ)
    (etag : String) : Txn File := do
  let current ← enforceFileMutation file
  ensure (current.blobId = file.blobId)
    (fileModifiedDuringWrite "file changed while the version restore was being prepared")
  let history ← lockHistoryByFileId file.id
  let target ← loadRevisionForFile file.id revisionId
  let targetBlobId ← orFail target.blobId (recordNotFound "version content has been purged")
  let targetMime := target.mimeType.getD current.mimeType
  updateStorageUsedOn scope target.logicalSize
  incrementOn targetBlobId
  let _ ← append file.id history.currentRevisionId
    { blobId := targetBlobId, logicalSize := target.logicalSize, mimeType := targetMime, etag }
  updateFileContent current targetBlobId target.logicalSize targetMime now

/-- `if size != 0 { update_storage_used(-size) }`. -/
def reclaim (scope : WorkspaceResourceScope) (size : ℕ) : Txn Unit :=
  if size ≠ 0 then updateStorageUsedFor scope (-(size : ℤ)) else pure ()

/-- What deleting a version and cleaning up an old one have in common. -/
def retireRevision (scope : WorkspaceResourceScope) (revision : FileRevision) (purged : AsterError) :
    Txn Unit := do
  let blobId ← orFail revision.blobId purged
  tombstone revision
  decrementOn blobId
  reclaim scope revision.logicalSize

/-- The transaction of `delete_version_inner`. -/
def deleteVersionInner (scope : WorkspaceStorageScope) (file : File) (revisionId : ℕ) :
    Txn Unit := do
  let history ← lockHistoryByFileId file.id
  ensure (history.currentRevisionId ≠ some revisionId)
    (.validationError { message := "the current file revision cannot be deleted" })
  let revision ← loadRevisionForFile file.id revisionId
  retireRevision scope.resource revision (recordNotFound "version content has been purged")

def retireOldest (scope : WorkspaceResourceScope) : Option FileRevision → Txn Unit
  | none => pure ()
  | some oldest =>
    retireRevision scope oldest (internalError "active historical revision has no blob")

/-- `resource_scope_from_file`. -/
def resourceScopeFromFile (file : File) : Except AsterError WorkspaceResourceScope :=
  match file.workspace with
  | some scope => .ok scope
  | none => .error (authForbidden "file has no personal owner")

/-- One round of the loop of `cleanup_excess`; `file` was loaded before the loop. -/
def cleanupExcessRound (file : File) (maxHistory : ℕ) : Txn Unit := do
  let scope ← check (resourceScopeFromFile file)
  let count ← countByFileId file.id
  let oldest ← findOldestNonCurrent file.id
  retireOldest scope (if count ≤ maxHistory + 1 then none else oldest)

/-- The unchanged content of a controlled file becomes a revision of its own. -/
def appendPropertyRevision (scope : WorkspaceStorageScope) (file : File) (etag : String) :
    Txn Unit := do
  checkQuotaIfPositive scope file.size
  incrementOn file.blobId
  let _ ← append file.id none { blobId := file.blobId, logicalSize := file.size, mimeType := file.mimeType, etag }
  chargeIfNonzero scope file.size

/-- The content part of `patch_props`, once a property of the file changed. -/
def recordPropertyChange (scope : WorkspaceStorageScope) (fileId : ℕ) (etag : String) :
    Txn Unit := do
  let s ← get
  let file ← orFail (s.files.get fileId) (fileNotFound ("file #" ++ toString fileId))
  check (ensureFileResourceScope file scope.resource)
  let history ← lockHistoryByFileId file.id
  if history.deltavControlled then appendPropertyRevision scope file etag else pure ()

/-! ### Copies -/

/-- `BatchDuplicateFileRecordSpec` and its target variant: the loaded source and the place of the
copy. -/
structure CopySpec where
  src : File
  destName : String
  destFolderId : Option ℕ

def CopySpec.draft (spec : CopySpec) (scope : WorkspaceStorageScope) (now : ℕ) : FileDraft :=
  { scope, folderId := spec.destFolderId, name := spec.destName, blobId := spec.src.blobId
    size := spec.src.size, mimeType := spec.src.mimeType, now }

/-- One round of `collect_blob_ref_count_increments`. -/
def countBlob (context : String) (counts : List (ℕ × ℤ)) (blobId : ℕ) : Except AsterError (List (ℕ × ℤ)) :=
  if i32Max < deltaOf counts blobId + 1 then
    .error (internalError ("blob copy count overflow for blob " ++ toString blobId ++ " during " ++ context))
  else .ok (addDelta blobId 1 counts)

def collectBlobRefCountIncrements (blobIds : List ℕ) (context : String) : Except AsterError (List (ℕ × ℤ)) :=
  blobIds.foldlM (countBlob context) []

/-- The sum of the sources' sizes, as an `i64`. -/
def totalCopySize (specs : List CopySpec) (context : String) : Except AsterError ℕ :=
  let total := (specs.map fun spec => spec.src.size).sum
  if total ≤ i64Max then .ok total
  else .error (internalError ("total copied byte count overflow during " ++ context))

def incrementManyOn (deltas : List (ℕ × ℤ)) : Txn Unit :=
  onBlobs fun t => (incrementBlobRefCountsBy t deltas).map fun t' => ((), t')

/-- `file_repo::create_many`. -/
def createMany (drafts : List FileDraft) : Txn (List File) :=
  drafts.mapM fun d => insertFile d (.validationError { message := "one or more files already exist in this folder" })

/-- `active_scope_condition`. -/
def isActiveIn (scope : WorkspaceStorageScope) (f : File) : Bool :=
  f.workspace = some scope.resource ∧ f.deletedAt = none

/-- `find_by_names_in_folder`: names that are equal, or equal after normalization. -/
def findByNamesInFolder (normalizeName : String → String) (s : Db) (scope : WorkspaceStorageScope)
    (folderId : Option ℕ) (names : List String) : List File :=
  s.files.rows.filter fun f => isActiveIn scope f ∧ f.folderId = folderId ∧
    ∃ name ∈ names, f.name = name ∨ normalizeName f.name = normalizeName name

/-- The transaction of `batch_duplicate_file_records_with_specs_in_scope`. -/
def batchDuplicateFileRecords (normalizeName : String → String) (scope : WorkspaceStorageScope)
    (specs : List CopySpec) (destFolderId : Option ℕ) (now : ℕ) (etag : File → String) :
    Txn (List File) := if specs.isEmpty then pure [] else do
  let totalSize ← check (totalCopySize specs "batch copy")
  updateStorageUsedOn scope totalSize
  let blobCounts ← check (collectBlobRefCountIncrements (specs.map fun c => c.src.blobId) "batch copy")
  incrementManyOn blobCounts
  let _ ← createMany (specs.map fun spec => { spec.draft scope now with folderId := destFolderId })
  let s ← get
  let created := findByNamesInFolder normalizeName s scope destFolderId (specs.map CopySpec.destName)
  ensure (created.length = specs.length) (internalError "failed to load all copied files after batch insert")
  let _ ← created.mapM fun file => createInitial file (etag file)
  pure created

/-- `duplicate_file_record_in_scope_on`: one copy, charged with the blob's size. -/
def duplicateFileRecord (scope : WorkspaceStorageScope) (spec : CopySpec) (now : ℕ)
    (etag : File → String) : Txn File := do
  let s ← get
  let blob ← check (findBlobById s.blobs spec.src.blobId)
  checkQuotaOn scope blob.size
  incrementOn blob.id
  let newFile ← insertFile (spec.draft scope now) (duplicateNameError spec.destName)
  updateStorageUsedOn scope blob.size
  let _ ← createInitial newFile (etag newFile)
  pure newFile

/-- The reloaded copy of one spec, by folder and name. -/
def findCopy (created : List File) (spec : CopySpec) : Txn File :=
  orFail (created.find? fun f => f.folderId = spec.destFolderId ∧ f.name = spec.destName)
    (internalError ("failed to reload copied file '" ++ spec.destName ++ "' in folder "
      ++ toString (spec.destFolderId.getD 0)))

/-- The transaction of `batch_duplicate_file_records_to_mixed_folders_in_scope`. -/
def batchDuplicateToMixedFolders (scope : WorkspaceStorageScope) (specs : List CopySpec) (now : ℕ)
    (etag : File → String) : Txn (List File) := if specs.isEmpty then pure [] else do
  let totalSize ← check (totalCopySize specs "folder copy")
  checkQuotaOn scope totalSize
  let blobCounts ← check (collectBlobRefCountIncrements (specs.map fun c => c.src.blobId) "folder copy")
  incrementManyOn blobCounts
  let _ ← createMany (specs.map fun spec => spec.draft scope now)
  let s ← get
  let reloaded := s.files.rows.filter fun f => isActiveIn scope f ∧ f.folderId.isSome ∧
    ∃ spec ∈ specs, f.folderId = spec.destFolderId
  let created ← specs.mapM (findCopy reloaded)
  ensure (∀ f ∈ reloaded, f ∈ created) (internalError "folder copy reloaded unexpected destination files")
  let _ ← createInitialMany created etag
  updateStorageUsedOn scope totalSize
  pure created

/-! ### Purge -/

/-- The blob decrements of a purge: how many retired revisions referred to each blob. -/
def countRefs (refs : List (ℕ × ℕ)) : List (ℕ × ℤ) := refs.foldl (fun counts ref => addDelta ref.1 1 counts) []

/-- The bytes a purge frees on one blob. -/
def freedBytes (refs : List (ℕ × ℕ)) (blobId : ℕ) : ℕ := ((refs.filter fun ref => ref.1 = blobId).map Prod.snd).sum

def deleteFiles (ids : List ℕ) : Txn Unit := fun s =>
  .ok ((), { s with files := s.files.deleteRows fun f => f.id ∈ ids })

/-- `ensure_file_resource_scope` on every file. -/
def ensureAllInScope (scope : WorkspaceResourceScope) (files : List File) : Txn Unit :=
  check (files.forM fun f => ensureFileResourceScope f scope)

/-- `purge_files_on`: re-read the requested files, retire their histories and release what their
revisions held. -/
def purgeFilesOn (scope : WorkspaceResourceScope) (files : List File) :
    Txn (List ℕ) := if files.isEmpty then pure [] else do
  ensureAllInScope scope files
  let s ← get
  let current := s.files.rows.filter fun f =>
    (∃ x ∈ files, x.id = f.id) ∧ ((∃ x ∈ files, x.id = f.id ∧ x.deletedAt.isSome = true) → f.deletedAt.isSome = true)
  ensureAllInScope scope current
  let fileIds := current.map File.id
  let revisionRefs ← retireHistories fileIds
  deleteFiles fileIds
  let s ← get
  let decrements := (countRefs revisionRefs).filter fun e => (s.blobs.get e.1).isSome
  let totalFreed := (decrements.map fun e => freedBytes revisionRefs e.1).sum
  onBlobs fun t => (decrementBlobRefCountsBy t decrements).map fun t' => ((), t')
  updateStorageUsedFor scope (-(totalFreed : ℤ))
  pure fileIds

/-! ### Blob maintenance -/

/-- A conditional statement: without an affected row the transaction changes nothing. -/
def onBlobsIf (f : Blobs → Option Blobs) : Txn Unit := fun s =>
  match f s.blobs with
  | some blobs => .ok ((), { s with blobs })
  | none => .ok ((), s)

def claimCleanup (blobId : ℕ) : Txn Unit := onBlobsIf fun t => claimBlobCleanup t blobId

def restoreClaim (blobId : ℕ) : Txn Unit := onBlobsIf fun t => restoreBlobCleanupClaim t blobId

def deleteClaimedBlob (blobId : ℕ) : Txn Unit := onBlobsIf fun t => deleteBlobIfCleanupClaimed t blobId

/-- `count_non_current_blob_refs_for_blob`: live revisions that are not their history's head. -/
def countNonCurrentBlobRefs (s : Db) (blobId : ℕ) : ℕ :=
  s.revisions.rows.countP fun r => r.blobId = some blobId ∧ r.retired = false ∧
    ∃ h ∈ s.histories.rows, h.id = r.historyId ∧ h.currentRevisionId ≠ some r.id

/-- `current_blob_ref_count`: files plus live revisions that are not current. -/
def currentBlobRefCount (s : Db) (blobId : ℕ) : ℤ :=
  (s.files.rows.countP fun f => f.blobId = blobId) + countNonCurrentBlobRefs s blobId

/-- `reconcile_single_blob_ref_count`. A claimed row is skipped; the maintenance task does so only
while the claim is fresh (`claimIsStale` false), the blob task always. -/
def reconcileBlob (blobId : ℕ) (claimIsStale : Bool) : Txn Unit := fun s =>
  match s.blobs.get blobId with
  | none => .ok ((), s)
  | some blob =>
    if blob.refCount = blobCleanupClaimedRefCount ∧ claimIsStale = false then .ok ((), s)
    else if blob.refCount = currentBlobRefCount s blobId then .ok ((), s)
    else .ok ((), { s with blobs := setBlobRefCount s.blobs blobId (currentBlobRefCount s blobId) })

end AsterDrive.Db
