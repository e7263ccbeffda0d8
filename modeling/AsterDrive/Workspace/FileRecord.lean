import AsterDrive.Db.BlobRepo
import AsterDrive.Db.RevisionRepo
import AsterDrive.Workspace.Quota

/-!
# FileRecord — transactions that create a file or overwrite its content

`createFileFromBlob` is the one function that makes a file row together with its first revision;
`storeFromTemp`, `storePreuploadedNondedup`, `createEmpty` and `finalizeUploadSession` are the
transactions around it. Lock enforcement and activity records are left out: they read the same
rows and can only make a transaction fail. The copies of a name that `next_copy_name` proposes come
from a parameter.
-/

namespace AsterDrive.Db

/-! ### Whose file it is -/

def authForbidden (message : String) (apiCode : Option ApiErrorCode := none) : AsterError :=
  .authForbidden { message, apiCode }

/-- `ensure_file_resource_scope`. -/
def ensureFileResourceScope (file : File) : WorkspaceResourceScope → Except AsterError Unit
  | .personal userId =>
    if file.teamId.isSome then
      .error (authForbidden "file belongs to a team workspace" (some .workspaceScopeDenied))
    else match file.ownerUserId with
      | none => .error (authForbidden "file has no personal owner" (some .workspaceScopeDenied))
      | some owner => if owner = userId then .ok () else .error (authForbidden "not your file")
  | .team teamId =>
    if file.teamId = some teamId then .ok ()
    else .error (authForbidden "file is outside team workspace" (some .workspaceScopeDenied))

def fileNotFound (message : String) : AsterError := .fileNotFound { message }

/-- `ensure_active_file_scope`. -/
def ensureActiveFileScope (file : File) (scope : WorkspaceStorageScope) : Except AsterError Unit := do
  ensureFileResourceScope file scope.resource
  if file.deletedAt.isSome then
    .error (fileNotFound ("file #" ++ toString file.id ++ " is in trash"))
  else .ok ()

theorem workspace_of_ensure {file : File} {scope : WorkspaceResourceScope}
    (h : ensureFileResourceScope file scope = .ok ()) : file.workspace = some scope := by
  unfold File.workspace
  cases scope with
  | personal userId =>
    simp only [ensureFileResourceScope] at h
    split_ifs at h with hteam
    rw [Bool.not_eq_true, Option.isSome_eq_false_iff, Option.isNone_iff_eq_none] at hteam
    rw [hteam]
    split at h
    · simp at h
    · rename_i owner howner
      split_ifs at h with heq
      rw [howner, heq]
      rfl
  | team teamId =>
    simp only [ensureFileResourceScope] at h
    split_ifs at h with hteam
    rw [hteam]

theorem ensure_of_workspace {file : File} {scope : WorkspaceResourceScope} (h : file.workspace = some scope) :
    ensureFileResourceScope file scope = .ok () := by
  unfold File.workspace at h
  cases hteam : file.teamId with
  | some teamId =>
    rw [hteam] at h
    cases h
    exact if_pos hteam
  | none =>
    rw [hteam] at h
    obtain ⟨userId, howner, rfl⟩ := Option.map_eq_some_iff.mp h
    simp [ensureFileResourceScope, hteam, howner]

theorem workspace_of_ensureActive {file : File} {scope : WorkspaceStorageScope}
    (h : ensureActiveFileScope file scope = .ok ()) : file.workspace = some scope.resource := by
  obtain ⟨u, hscope, _⟩ := bind_ok h
  exact workspace_of_ensure hscope

/-! ### File rows -/

/-- `idx_files_unique_live_name`: workspace, folder and name of a file that is not in the trash. -/
def File.liveName (f : File) : Option (WorkspaceResourceScope × ℕ × String) :=
  if f.deletedAt = none then f.workspace.map fun w => (w, f.folderId.getD 0, f.name) else none

def nameTaken (s : Db) (f : File) : Bool := f.liveName.isSome ∧ ∃ x ∈ s.files.rows, x.liveName = f.liveName

/-- The columns a new file row is inserted with. -/
structure FileDraft where
  scope : WorkspaceStorageScope
  folderId : Option ℕ
  name : String
  blobId : ℕ
  size : ℕ
  mimeType : String
  now : ℕ

def FileDraft.row (d : FileDraft) (id : ℕ) : File :=
  { id, ownerUserId := d.scope.ownerUserId, teamId := d.scope.teamId, folderId := d.folderId
    name := d.name, blobId := d.blobId, size := d.size, mimeType := d.mimeType, updatedAt := d.now }

/-- Insert a file row; the unique index on live names may refuse it. -/
def insertFile (d : FileDraft) (conflict : AsterError) : Txn File := fun s =>
  if nameTaken s (d.row s.files.next) then .error conflict
  else .ok (d.row s.files.next, { s with files := s.files.insert d.row fun _ => rfl })

def duplicateNameError (name : String) : AsterError :=
  .validationError
    { message := "file '" ++ name ++ "' already exists in this folder"
      apiCode := some .fileNameConflict }

inductive NewFileNameMode
  | resolveUnique | exact

/-- `MAX_AUTO_NAME_RETRIES`. -/
def maxAutoNameRetries : ℕ := 32

def nameExhausted (name : String) : AsterError :=
  .validationError { message := "failed to allocate a unique file name for '" ++ name ++ "'" }

/-- The insertion loop of `create_file_from_blob_with_name_mode`: on a conflict the next copy of the
name is tried, as often as `attempts` says. -/
def insertFileUnder (nextCopyName : String → String) (requested : String) (d : FileDraft) : ℕ → String → Txn File
  | 0, _ => check (.error (nameExhausted requested))
  | attempts + 1, name => fun s =>
    match insertFile { d with name } (duplicateNameError name) s with
    | .ok r => .ok r
    | .error _ => insertFileUnder nextCopyName requested d attempts (nextCopyName name) s

/-- An exact name is tried once. -/
def insertFileByMode (nextCopyName : String → String) (d : FileDraft) : NewFileNameMode → Txn File
  | .exact => insertFile d (duplicateNameError d.name)
  | .resolveUnique => insertFileUnder nextCopyName d.name d maxAutoNameRetries d.name

/-- `create_file_from_blob_with_name_mode`; `d.name` is the first candidate. -/
def createFileFromBlob (nextCopyName : String → String) (mode : NewFileNameMode) (d : FileDraft)
    (etag : String) : Txn File := do
  let created ← insertFileByMode nextCopyName d mode
  let _ ← createInitial created etag
  pure created

/-- The update of the file row that an overwrite and a restore make. -/
def updateFileContent (current : File) (blobId size : ℕ) (mimeType : String) (now : ℕ) :
    Txn File := fun s =>
  let updated := { current with blobId, size, mimeType, updatedAt := now }
  let files := s.files.updateRows (fun f => f.id = current.id)
    (fun f => { f with blobId, size, mimeType, updatedAt := now }) fun _ => rfl
  .ok (updated, { s with files })

/-- Blob statements as part of a transaction. -/
def onBlobs {α : Type} (f : Blobs → Except AsterError (α × Blobs)) : Txn α := fun s =>
  match f s.blobs with
  | .error e => .error e
  | .ok (a, blobs) => .ok (a, { s with blobs })

/-- `increment_blob_ref_count` in a transaction. -/
def incrementOn (blobId : ℕ) : Txn Unit := onBlobs fun t => (incrementBlobRefCount t blobId).map fun t' => ((), t')

def decrementOn (blobId : ℕ) : Txn Unit := onBlobs fun t => .ok ((), decrementBlobRefCount t blobId)

/-! ### Overwriting -/

def fileModifiedDuringWrite (message : String) : AsterError :=
  .preconditionFailed { message, apiCode := some .fileModifiedDuringWrite }

/-- `enforce_file_mutation_on`: re-read the row and compare its workspace with the loaded one. -/
def enforceFileMutation (file : File) : Txn File := do
  let s ← get
  let current ← orFail (s.files.get file.id) (fileNotFound ("file #" ++ toString file.id))
  ensure (current.workspace = file.workspace)
    (.resourceLocked { message := "file workspace changed during mutation lock validation" })
  pure current

/-- `FileWritePrecondition`. -/
inductive FileWritePrecondition
  | missing
  | existing (expected : File)

/-- Whether the row is still the one the client saw. -/
def FileWritePrecondition.holds (current : File) : Option FileWritePrecondition → Bool
  | none => true
  | some .missing => false
  | some (.existing expected) =>
    current.id = expected.id ∧ current.blobId = expected.blobId ∧ current.size = expected.size ∧
      current.updatedAt = expected.updatedAt

/-- `revalidate_overwrite_target`. -/
def revalidateOverwriteTarget (scope : WorkspaceStorageScope) (oldFile : File)
    (precondition : Option FileWritePrecondition) : Txn File := do
  let current ← enforceFileMutation oldFile
  check (ensureActiveFileScope current scope)
  ensure (FileWritePrecondition.holds current precondition = true ∧
      current.blobId = oldFile.blobId ∧ current.size = oldFile.size ∧
      current.updatedAt = oldFile.updatedAt)
    (fileModifiedDuringWrite "file changed while upload body was being received")
  pure current

/-- `revalidate_preuploaded_overwrite_target`: the same, without size and time. -/
def revalidatePreuploadedOverwriteTarget (scope : WorkspaceStorageScope) (oldFile : File) :
    Txn File := do
  let current ← enforceFileMutation oldFile
  check (ensureActiveFileScope current scope)
  ensure (current.blobId = oldFile.blobId) (fileModifiedDuringWrite "file changed while upload body was being received")
  pure current

/-- Which head an overwrite expects: an etag, a revision id, or whatever the lock found. -/
structure ExpectedHead where
  revisionId : Option ℕ := none
  etag : Option String := none

/-- The choice between `append_for_expected_etag` and `append` in `write_file_record_from_temp`. -/
def appendExpecting (fileId : ℕ) (locked : Option ℕ) (expected : ExpectedHead)
    (input : NewRevision) : Txn FileRevision :=
  if expected.etag.isSome then appendForExpectedEtag fileId expected.etag input
  else append fileId (expected.revisionId.or locked) input

/-- The overwriting half of `write_file_record_from_temp` and of `store_preuploaded_nondedup`, after
the target was revalidated. -/
def overwriteContent (current : File) (blob : FileBlob) (mime : String) (now : ℕ)
    (expected : ExpectedHead) (etag : String) : Txn File := do
  let locked ← lockHistoryByFileId current.id
  let updated ← updateFileContent current blob.id blob.size mime now
  let _ ← appendExpecting current.id locked.currentRevisionId expected
    { blobId := blob.id, logicalSize := blob.size, mimeType := mime, etag }
  pure updated

/-- `if storage_delta != 0 { update_storage_used }`. -/
def chargeIfNonzero (scope : WorkspaceStorageScope) (delta : ℤ) : Txn Unit :=
  if delta ≠ 0 then updateStorageUsedOn scope delta else pure ()

def checkQuotaIfPositive (scope : WorkspaceStorageScope) (delta : ℤ) : Txn Unit :=
  if 0 < delta then checkQuotaOn scope delta else pure ()

/-! ### The transactions -/

/-- The blob of a store: content found by its hash, or an object uploaded before. -/
inductive TempBlob
  | contentAddressed (fileHash storagePath : String) (size policyId : ℕ)
  | preuploaded (prepared : PreparedNonDedupBlobUpload)

def TempBlob.size : TempBlob → ℕ
  | .contentAddressed _ _ size _ => size
  | .preuploaded prepared => prepared.size

/-- `persist_temp_blob`. -/
def persistTempBlob : TempBlob → Txn FileBlob
  | .contentAddressed fileHash storagePath size policyId =>
    onBlobs fun t => findOrCreateBlob t fileHash size policyId storagePath
  | .preuploaded prepared => onBlobs fun t => persistPreuploadedBlob t prepared

/-- What a store writes: a new file, or new content for a loaded one. -/
inductive StoreTarget
  | newFile (folderId : Option ℕ) (name : String) (mode : NewFileNameMode)
  | overwrite (oldFile : File) (precondition : Option FileWritePrecondition) (expected : ExpectedHead)

/-- The two branches of `write_file_record_from_temp`. -/
def writeTarget (nextCopyName : String → String) (scope : WorkspaceStorageScope) (blob : FileBlob)
    (mime : String) (now : ℕ) (etag : String) : StoreTarget → Txn File
  | .newFile folderId name mode =>
    createFileFromBlob nextCopyName mode
      { scope, folderId, name, blobId := blob.id, size := blob.size, mimeType := mime, now } etag
  | .overwrite oldFile precondition expected => do
    let current ← revalidateOverwriteTarget scope oldFile precondition
    overwriteContent current blob mime now expected etag

/-- `write_file_record_from_temp`. -/
def writeFileRecordFromTemp (nextCopyName : String → String) (scope : WorkspaceStorageScope)
    (target : StoreTarget) (blob : FileBlob) (mime : String) (now : ℕ) (storageDelta : ℤ)
    (etag : String) : Txn File := do
  let result ← writeTarget nextCopyName scope blob mime now etag target
  chargeIfNonzero scope storageDelta
  pure result

/-- The transaction of `persist_temp_store`: quota check, blob, file record, usage. -/
def storeFromTemp (nextCopyName : String → String) (scope : WorkspaceStorageScope) (blob : TempBlob)
    (target : StoreTarget) (mime : String) (now : ℕ) (etag : String) : Txn File := do
  checkQuotaIfPositive scope blob.size
  let row ← persistTempBlob blob
  writeFileRecordFromTemp nextCopyName scope target row mime now blob.size etag

/-- The two branches of `store_preuploaded_nondedup`. -/
def writePreuploaded (nextCopyName : String → String) (scope : WorkspaceStorageScope)
    (blob : FileBlob) (folderId : Option ℕ) (name mime : String) (now : ℕ) (etag : String) :
    Option File → Txn File
  | none =>
    createFileFromBlob nextCopyName .resolveUnique
      { scope, folderId, name, blobId := blob.id, size := blob.size, mimeType := mime, now } etag
  | some oldFile => do
    let current ← revalidatePreuploadedOverwriteTarget scope oldFile
    overwriteContent current blob mime now {} etag

/-- The transaction of `store_preuploaded_nondedup`. -/
def storePreuploadedNondedup (nextCopyName : String → String) (scope : WorkspaceStorageScope)
    (prepared : PreparedNonDedupBlobUpload) (overwritten : Option File) (folderId : Option ℕ)
    (name mime : String) (now : ℕ) (etag : String) : Txn File := do
  checkQuotaIfPositive scope prepared.size
  let blob ← onBlobs fun t => persistPreuploadedBlob t prepared
  let result ← writePreuploaded nextCopyName scope blob folderId name mime now etag overwritten
  chargeIfNonzero scope prepared.size
  pure result

/-- The transaction of `create_empty`, without its idempotency record. -/
def createEmpty (nextCopyName : String → String) (scope : WorkspaceStorageScope)
    (folderId : Option ℕ) (name : String) (mode : NewFileNameMode) (policyId : ℕ) (mime : String)
    (now : ℕ) (etag : String) : Txn File := do
  let blob ← onBlobs fun t => findOrCreateVirtualEmptyBlob t policyId
  createFileFromBlob nextCopyName mode
    { scope, folderId, name, blobId := blob.id, size := blob.size, mimeType := mime, now } etag

/-- `VerifiedUploadSource`, with what the row needs. -/
inductive VerifiedUpload
  | findOrCreate (fileHash storagePath : String) (size policyId : ℕ)
  | preuploaded (prepared : PreparedNonDedupBlobUpload)

def persistVerifiedUpload : VerifiedUpload → Txn FileBlob
  | .findOrCreate fileHash storagePath size policyId =>
    onBlobs fun t => findOrCreateBlob t fileHash size policyId storagePath
  | .preuploaded prepared => onBlobs fun t => persistPreuploadedBlob t prepared

/-- The publishing transaction of an upload: blob, file, usage, and last the session's step from
`Assembling` to `Completed`, whose success is `sessionCompleted`. -/
def finalizeUploadSession (nextCopyName : String → String) (scope : WorkspaceStorageScope)
    (upload : VerifiedUpload) (folderId : Option ℕ) (name mime : String) (now : ℕ) (etag : String)
    (sessionCompleted : Except AsterError Unit) : Txn File := do
  let blob ← persistVerifiedUpload upload
  let created ← createFileFromBlob nextCopyName .resolveUnique
    { scope, folderId, name, blobId := blob.id, size := blob.size, mimeType := mime, now } etag
  updateStorageUsedOn scope blob.size
  check sessionCompleted
  pure created

end AsterDrive.Db
