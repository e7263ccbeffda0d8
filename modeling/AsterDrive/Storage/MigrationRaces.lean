import AsterDrive.Storage.DedupStore
import AsterDrive.Storage.MigrationOnce

/-!
# Storage/MigrationRaces — a migration among uploads and cleanups

The workers of a migration share the table and the objects with those of `Storage/DedupStore`: stores of contents into
any policy, deletions and purges, and cleanups (`deletion/blob_cleanup.rs`). Here an object is its content.

`written` lists, for each row, the contents that its references were created with; a merge hands them on. The file and
revision rows of a store are not modelled beside it.

Whoever writes or removes an object, and whoever commits a row for one, has looked before. `StillHolds` says that what
it then saw is still so, as far as a row that counts a reference depends on it.
-/

namespace AsterDrive.Storage.MigrationRaces

open Interleave Db Migration

open DedupStore (Job)

structure Shared where
  store : Store
  written : ℕ → List Body

inductive Proc
  | migration (w : Worker)
  | other (p : DedupStore.Pc Body)

inductive Act
  | migrate (a : Migration.Act)
  | call (a : DedupStore.Act Body)
  /-- A store of the empty content. -/
  | storeEmpty (policyId : ℕ)

variable (cfg : Setup)

/-- The path of a key that is accepted. -/
def pathOf (key : String) : String :=
  match cfg.storagePathFromBlobKey key with
  | .ok path => path
  | .error _ => ""

/-- The contents, as `Storage/DedupStore` sees them. -/
def dedup : DedupStore.Setup Body where
  hash := cfg.sha256
  length := List.length
  storagePathFromBlobKey := pathOf cfg

namespace Shared

def blobs (s : Shared) : Blobs := s.store.db.blobs

def withBlobs (s : Shared) (blobs : Blobs) : Shared :=
  { s with store := { s.store with db := { s.store.db with blobs } } }

def object (s : Shared) (job : Job Body) : Option Body := s.store.objects job.policyId ((dedup cfg).path job)

def setObject (s : Shared) (policyId : ℕ) (path : String) (object : Option Body) : Shared :=
  { s with store := s.store.setObject policyId path object }

/-- A reference to the row is created. -/
def refer (s : Shared) (blobId : ℕ) (body : Body) : Shared :=
  { s with written := Function.update s.written blobId (body :: s.written blobId) }

/-- `find_blob_by_hash` -/
def hasRow (s : Shared) (job : Job Body) : Bool :=
  s.blobs.rows.any (hasBlobKey (cfg.sha256 job.body) job.policyId .stored)

/-- References that are dropped have been counted. -/
def counts (s : Shared) (blobIds : List ℕ) : Bool :=
  blobIds.all fun k => (s.blobs.get k).any fun b => (blobIds.count k : ℤ) ≤ b.refCount

end Shared

/-! ### Stores, deletions and cleanups -/

section Calls

open DedupStore (Pc)

/-- A worker without a request. -/
def stepIdle (s : Shared) : DedupStore.Act Body → Option (Shared × Pc Body)
  | .store job =>
    match cfg.storagePathFromBlobKey (cfg.sha256 job.body) with
    | .ok _ => some (s, .link job)
    | .error _ => some (s, .finished)
  | .cleanup blobId =>
    match s.blobs.get blobId with
    | none => some (s, .finished)
    | some b => some (s, if b.refCount = 0 then .claim b else .finished)
  | .deleteVersion blobId =>
    if s.counts [blobId] then some (s.withBlobs (decrementBlobRefCount s.blobs blobId), .finished) else none
  | .purge blobIds =>
    if s.counts blobIds then
      match decrementBlobRefCountsBy s.blobs (blobIds.map fun id => (id, 1)) with
      | .ok blobs => some (s.withBlobs blobs, .finished)
      | .error _ => some (s, .finished)
    else none
  | _ => none

/-- The link of `promote_local_file_if_absent`. A link through a copy was measured before. -/
def stepLink (job : Job Body) (s : Shared) : DedupStore.Act Body → Option (Shared × Pc Body)
  | .ok =>
    if (s.object cfg job).isNone then
      some (s.setObject job.policyId ((dedup cfg).path job) (some job.body), .validate job true)
    else some (s, .validate job false)
  | .linkCopy =>
    if (s.object cfg job).isNone then
      some (s.setObject job.policyId ((dedup cfg).path job) (some job.body), .staged job true)
    else some (s, .validate job false)
  | .error => some (s, .finished)
  | _ => none

/-- `validate_existing_local_blob_size` -/
def stepValidate (job : Job Body) (created : Bool) (s : Shared) : DedupStore.Act Body → Option (Shared × Pc Body)
  | .ok =>
    if (s.object cfg job).map List.length = some job.body.length then some (s, .staged job created)
    else some (s, if created then .removeInvalid job else .finished)
  | .error => some (s, if created then .removeInvalid job else .finished)
  | _ => none

/-- A removal of the content's object whose failure is only logged. -/
def stepRemove (job : Job Body) (s : Shared) : DedupStore.Act Body → Option (Shared × Pc Body)
  | .ok | .lost => some (s.setObject job.policyId ((dedup cfg).path job) none, .finished)
  | .error => some (s, .finished)
  | _ => none

/-- The transaction of the store. -/
def runTransaction (job : Job Body) (s : Shared) : Except AsterError Shared :=
  match findOrCreateBlob s.blobs (cfg.sha256 job.body) job.body.length job.policyId ((dedup cfg).path job) with
  | .error e => .error e
  | .ok (b, blobs) => .ok ((s.withBlobs blobs).refer b.id job.body)

def stepStaged (job : Job Body) (created : Bool) (s : Shared) : DedupStore.Act Body → Option (Shared × Pc Body)
  | .ok | .lost =>
    match runTransaction cfg job s with
    | .ok s' => some (s', .finished)
    | .error _ => some (s, DedupStore.afterFailure job created)
  | .error => some (s, DedupStore.afterFailure job created)
  | .unknownRollback => some (s, .finished)
  | _ => none

/-- The transaction that stores the empty content. -/
def storeEmpty (policyId : ℕ) (s : Shared) : Except AsterError Shared :=
  match findOrCreateVirtualEmptyBlob s.blobs policyId with
  | .error e => .error e
  | .ok (b, blobs) => .ok ((s.withBlobs blobs).refer b.id [])

/-- `driver.delete` of a cleanup; an error is followed by a look at the object. -/
def stepDelete (b : FileBlob) (s : Shared) (a : DedupStore.Act Body) : Option (Shared × Pc Body) :=
  match b.storagePath, a with
  | none, .ok => some (s, if b.backing = .virtualEmpty then .drop b else .restore b)
  | some path, .ok => some (s.setObject b.policyId path none, .drop b)
  | some path, .lost => some (s.setObject b.policyId path none, .probe b)
  | some _, .error => some (s, .probe b)
  | _, .blocked => some (s, .restore b)
  | _, _ => none

def stepProbe (b : FileBlob) (s : Shared) : DedupStore.Act Body → Option (Shared × Pc Body)
  | .ok =>
    match b.storagePath with
    | none => none
    | some path => some (s, if (s.store.objects b.policyId path).isNone then .drop b else .restore b)
  | .error => some (s, .restore b)
  | _ => none

/-- A conditional statement on the claimed row; `missed`: what follows when it affects no row. -/
def stepRow (s : Shared) (run : Blobs → Option Blobs) (done missed : Pc Body) :
    DedupStore.Act Body → Option (Shared × Pc Body)
  | .ok =>
    match run s.blobs with
    | some blobs => some (s.withBlobs blobs, done)
    | none => some (s, missed)
  | .error => some (s, missed)
  | _ => none

def stepCall (a : DedupStore.Act Body) (s : Shared) : Pc Body → Option (Shared × Pc Body)
  | .idle => stepIdle cfg s a
  | .link job => stepLink cfg job s a
  | .validate job created => stepValidate cfg job created s a
  | .removeInvalid job => stepRemove cfg job s a
  | .staged job created => stepStaged cfg job created s a
  | .rollback job =>
    match a with
    | .ok => some (s, if s.hasRow cfg job then .finished else .rollbackDelete job)
    | .error => some (s, .finished)
    | _ => none
  | .rollbackDelete job => stepRemove cfg job s a
  | .claim b => stepRow s (fun t => claimBlobCleanup t b.id) (.delete b) .finished a
  | .delete b => stepDelete b s a
  | .probe b => stepProbe b s a
  | .drop b => stepRow s (fun t => deleteBlobIfCleanupClaimed t b.id) .finished (.restore b) a
  | .restore b => stepRow s (fun t => restoreBlobCleanupClaim t b.id) .finished .finished a
  | .finished => none

end Calls

/-! ### All workers -/

/-- The rows that a transaction of the migration merges, if it merges. -/
def merging : Worker → Option (FileBlob × FileBlob)
  | .blob _ (.merge latest target) _ => some (latest, target)
  | .recoverVirtual _ _ source (some target) => some (source, target)
  | _ => none

/-- A merge hands on what references were created for. -/
def handOver (w : Worker) (s : Shared) (store : Store) : Shared :=
  match merging w with
  | some (old, target) =>
    if ((s.blobs.get old.id).any fun b => 0 < b.refCount) ∧ (store.db.blobs.get old.id).isNone then
      { store, written := Function.update s.written target.id (s.written old.id ++ s.written target.id) }
    else { s with store }
  | none => { s with store }

def stepMigration (w : Worker) (s : Shared) (a : Migration.Act) : Option (Shared × Proc) :=
  (Migration.step cfg s.store w a).map fun r => (handOver w s r.1, .migration r.2)

def step (a : Act) (s : Shared) (p : Proc) : Option (Shared × Proc) :=
  match a, p with
  | .migrate a, .migration w => stepMigration cfg w s a
  | .migrate a, .other .idle => stepMigration cfg .idle s a
  | .storeEmpty policyId, .other .idle =>
    match storeEmpty policyId s with
    | .ok s' => some (s', .other .finished)
    | .error _ => some (s, .other .finished)
  | .call .crash, .other _ => some (s, .other .finished)
  | .call a, .other p => (stepCall cfg a s p).map fun r => (r.1, .other r.2)
  | _, _ => none

def system : System Shared Proc Act := ⟨step cfg⟩

def start (s : Shared) : Config Shared Proc := { shared := s, proc := fun _ => .other .idle }

/-- Every row with a reference has the content that its references were created with. -/
def Intact (s : Shared) : Prop :=
  ∀ k b, s.blobs.get k = some b → 0 < b.refCount →
    ∃ body, content s.store k = some body ∧ ∀ written ∈ s.written k, written = body

/-! ### What was seen is still so -/

/-- No row that counts a reference has this path. -/
def unused (t : Blobs) (policyId : ℕ) (path : String) : Bool :=
  t.rows.all fun b => ¬ (b.policyId = policyId ∧ b.storagePath = some path) ∨ b.refCount ≤ 0

/-- A copy: nobody uses the path, or the object stays as it is. -/
def copyHolds (s : Shared) (c : Copy) (object : Option Body) : Bool :=
  unused s.blobs cfg.targetPolicyId c.targetPath ∨ object = cfg.target s.store c.targetPath

/-- A move takes references along: the copy is the object that they have. -/
def moveHolds (s : Shared) (c : Copy) : Bool :=
  (s.blobs.get c.blob.id).all fun x => x.policyId ≠ cfg.sourcePolicyId ∨ x.refCount ≤ 0 ∨
    cfg.target s.store c.targetPath = cfg.source s.store c

/-- A merge hands references over: the target has the object that the key names. -/
def mergeHolds (s : Shared) (latest target : FileBlob) : Bool :=
  (s.blobs.get latest.id).all fun x => x.policyId ≠ cfg.sourcePolicyId ∨ latest.backing = .virtualEmpty ∨
    x.refCount ≤ 0 ∨ (content s.store target.id).map cfg.sha256 = some latest.hash

def pcHolds (s : Shared) : Migration.Pc → Migration.Act → Bool
  | .put c _, .writes object _ => copyHolds cfg s c object
  | .completeUpload u, .writes object _ => copyHolds cfg s u.copy object
  | .deleteTarget c _, .ok _ _ | .deleteTarget c _, .writes _ _ => unused s.blobs cfg.targetPolicyId c.targetPath
  | .move c, .ok _ _ => moveHolds cfg s c
  | .merge latest target, .ok _ _ => mergeHolds cfg s latest target
  | _, _ => true

/-- A cleanup deletes: the row is where it was read, or nobody uses the path. -/
def deleteHolds (s : Shared) (b : FileBlob) : Bool :=
  b.storagePath.all fun path =>
    ((s.blobs.get b.id).any fun x => x.policyId = b.policyId) ∨ unused s.blobs b.policyId path

def callHolds (s : Shared) : DedupStore.Pc Body → DedupStore.Act Body → Bool
  | .staged job _, .ok | .staged job _, .lost => s.object cfg job = some job.body
  | .rollbackDelete job, .ok | .rollbackDelete job, .lost | .removeInvalid job, .ok | .removeInvalid job, .lost =>
    unused s.blobs job.policyId ((dedup cfg).path job)
  | .delete b, .ok | .delete b, .lost => deleteHolds s b
  | _, _ => true

def stillHolds (s : Shared) : Proc → Act → Bool
  | .migration (.blob _ pc _), .migrate a => pcHolds cfg s pc a
  | .other p, .call a => callHolds cfg s p a
  | _, _ => true

def StillHolds (s : Shared) (p : Proc) (a : Act) : Prop := stillHolds cfg s p a = true

instance (s : Shared) (p : Proc) (a : Act) : Decidable (StillHolds cfg s p a) := inferInstanceAs (Decidable (_ = _))

end AsterDrive.Storage.MigrationRaces
