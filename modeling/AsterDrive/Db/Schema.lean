import AsterDrive.Errors
import AsterDrive.Lib.Result
import AsterDrive.Lib.Table

/-!
# Schema — files, blobs, revisions and storage usage

The five tables behind a workspace's content: `file_blobs`, `files`, `file_revision_histories`,
`file_revisions` and the usage columns of `users` and `teams`. Columns that no modelled function
reads are left out. Lengths are natural numbers: the columns are signed, but every writer stores the
length of a body.

`Txn` is a database transaction: it reads and writes the tables and may fail, and a failed
transaction leaves no trace. `floorsTaken` is a ghost that counts the times `update_storage_used`
had to clamp at zero.
-/

namespace AsterDrive.Db

/-- `FileBlobBacking`: an object of a storage connector, or the canonical empty content. -/
inductive FileBlobBacking
  | stored | virtualEmpty
  deriving DecidableEq

/-- `file_blob::Model`. -/
structure FileBlob where
  id : ℕ
  hash : String
  policyId : ℕ
  backing : FileBlobBacking
  storagePath : Option String
  size : ℕ
  refCount : ℤ
  deriving DecidableEq

/-- `file_blob::Model::EMPTY_SHA256`. -/
def emptySha256 : String := "e3b0c44298fc1c149afbf4c8996fb92427ae41e4649b934ca495991b7852b855"

/-- `BLOB_CLEANUP_CLAIMED_REF_COUNT`. -/
def blobCleanupClaimedRefCount : ℤ := -1

/-- `WorkspaceResourceScope`: the workspace that owns a resource. -/
inductive WorkspaceResourceScope
  | personal (userId : ℕ)
  | team (teamId : ℕ)
  deriving DecidableEq

/-- `WorkspaceStorageScope`: the workspace together with the acting user. -/
inductive WorkspaceStorageScope
  | personal (userId : ℕ)
  | team (teamId actorUserId : ℕ)

namespace WorkspaceStorageScope

def ownerUserId : WorkspaceStorageScope → Option ℕ
  | personal userId => some userId
  | team _ _ => none

def teamId : WorkspaceStorageScope → Option ℕ
  | personal _ => none
  | team teamId _ => some teamId

/-- `From<WorkspaceStorageScope> for WorkspaceResourceScope`. -/
def resource : WorkspaceStorageScope → WorkspaceResourceScope
  | personal userId => .personal userId
  | team teamId _ => .team teamId

end WorkspaceStorageScope

/-- `file::Model`. -/
structure File where
  id : ℕ
  ownerUserId : Option ℕ
  teamId : Option ℕ
  folderId : Option ℕ
  name : String
  blobId : ℕ
  size : ℕ
  mimeType : String
  updatedAt : ℕ
  deletedAt : Option ℕ := none
  deriving DecidableEq

/-- The workspace of a file: its team, and without one its owner. -/
def File.workspace (f : File) : Option WorkspaceResourceScope :=
  match f.teamId with
  | some teamId => some (.team teamId)
  | none => f.ownerUserId.map .personal

/-- `file_revision_history::Model`. -/
structure FileRevisionHistory where
  id : ℕ
  fileId : Option ℕ
  currentRevisionId : Option ℕ
  nextSequence : ℕ
  deltavControlled : Bool := false
  retired : Bool := false

/-- `file_revision::Model`; `retired` stands for `retired_at` being set. -/
structure FileRevision where
  id : ℕ
  historyId : ℕ
  sequence : ℕ
  predecessorRevisionId : Option ℕ
  blobId : Option ℕ
  logicalSize : ℕ
  mimeType : Option String
  etag : String
  retired : Bool := false
  deriving DecidableEq

/-- The usage columns of a `user` or a `team`. -/
structure StorageUsage where
  scope : WorkspaceResourceScope
  storageUsed : ℤ
  storageQuota : ℤ
  archived : Bool := false

abbrev Blobs := SerialTable FileBlob.id
abbrev Files := SerialTable File.id
abbrev Histories := SerialTable FileRevisionHistory.id
abbrev Revisions := SerialTable FileRevision.id
abbrev Usage := Table StorageUsage.scope

end Db

/-- The database. -/
structure Db where
  blobs : Db.Blobs
  files : Db.Files
  histories : Db.Histories
  revisions : Db.Revisions
  usage : Db.Usage
  floorsTaken : ℕ := 0

namespace Db

/-- A database transaction. -/
abbrev Txn := StateT Db (Except AsterError)

/-- Fail unless the condition holds. -/
def ensure (p : Prop) [Decidable p] (e : AsterError) : Txn Unit := fun s =>
  if p then .ok ((), s) else .error e

/-- The value, or a failure. -/
def orFail {α : Type} (o : Option α) (e : AsterError) : Txn α := fun s =>
  match o with
  | some a => .ok (a, s)
  | none => .error e

/-- A computation that only reads or checks. -/
def check {α : Type} (x : Except AsterError α) : Txn α := fun s => x.map fun a => (a, s)

def databaseError (message : String) : AsterError := .databaseOperation { message }

def internalError (message : String) : AsterError := .internalError { message }

section Inversion

variable {α β : Type} {s s' : Db} {e : AsterError}

theorem bind_txn_ok {x : Txn α} {f : α → Txn β} {b : β} :
    (x >>= f) s = .ok (b, s') ↔ ∃ a s1, x s = .ok (a, s1) ∧ f a s1 = .ok (b, s') :=
  bind_state_ok

theorem bind_txn {x : Txn α} {f : α → Txn β} {b : β} (h : (x >>= f) s = .ok (b, s')) :
    ∃ a s1, x s = .ok (a, s1) ∧ f a s1 = .ok (b, s') :=
  (bind_txn_ok).mp h

theorem pure_txn_ok {a b : α} : (pure a : Txn α) s = .ok (b, s') ↔ a = b ∧ s = s' := by
  show Except.ok (a, s) = _ ↔ _
  simp

theorem get_txn_ok {a : Db} : (get : Txn Db) s = .ok (a, s') ↔ s = a ∧ s = s' := by
  show Except.ok (s, s) = _ ↔ _
  simp

theorem ensure_ok {p : Prop} [Decidable p] {u : Unit} : ensure p e s = .ok (u, s') ↔ p ∧ s = s' := by
  unfold ensure
  split_ifs with hp
  · simp [hp]
  · simp [hp]

theorem orFail_ok {o : Option α} {a : α} : orFail o e s = .ok (a, s') ↔ o = some a ∧ s = s' := by
  unfold orFail
  cases o with
  | none | some b => simp

theorem check_ok {x : Except AsterError α} {a : α} : check x s = .ok (a, s') ↔ x = .ok a ∧ s = s' := by
  unfold check
  cases x with
  | error e | ok b => simp [Except.map]

variable {b : β}

theorem bind_get_ok {f : Db → Txn β} : (get >>= f) s = .ok (b, s') ↔ f s s = .ok (b, s') := .rfl

theorem bind_ensure_ok {p : Prop} [Decidable p] {f : Unit → Txn β} :
    (ensure p e >>= f) s = .ok (b, s') ↔ p ∧ f () s = .ok (b, s') := by
  by_cases hp : p <;> simp [hp, ensure, bind, StateT.bind, Except.bind]

theorem bind_orFail_ok {o : Option α} {f : α → Txn β} :
    (orFail o e >>= f) s = .ok (b, s') ↔ ∃ a, o = some a ∧ f a s = .ok (b, s') := by
  simp [bind_txn_ok, orFail_ok, and_assoc]

theorem bind_check_ok {x : Except AsterError α} {f : α → Txn β} :
    (check x >>= f) s = .ok (b, s') ↔ ∃ a, x = .ok a ∧ f a s = .ok (b, s') := by
  simp [bind_txn_ok, check_ok, and_assoc]

end Inversion

end Db

end AsterDrive
