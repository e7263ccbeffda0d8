import AsterDrive.Lib.Interleave
import AsterDrive.Upload.Publication

/-!
# Lifecycle — one upload session and everybody who works on it

Complete calls, the body ingest of a stream session, cancel calls, chunk requests whose failure
terminates the session, and `cleanup_expired` passes, on one session of any kind. Each database
statement or transaction and each provider call that changes something is one atomic step; what a
worker read before is part of its program counter, however old it is by the time it is used. The
calls that only build up the object (copying, completing a multipart upload, writing a prepared blob,
linking a content object) are the steps `stage` and `measure`.

The columns that no statement changes (kind, keys, sizes) are read from the row as it was created.
`destroyed` is a ghost: the objects that were deleted while a blob row with a positive reference
count had their path.
-/

namespace AsterDrive.Upload.Lifecycle

open Interleave Db

/-- The session as created, and what the server is configured with. `κ` are the bodies that clients
send: `hash` is their SHA-256, `contentPath` the path of a content object. A resumable session of a
provider commits one object, with the size `providerSize`. -/
structure Setup (κ : Type) where
  row : UploadSession
  place : Placement
  db : Db
  hash : κ → String
  length : κ → ℕ
  contentPath : String → String
  providerSize : ℤ

/-- The shared state: the clock, the session row, the content tables and the storage objects. -/
structure State where
  clock : ℕ
  session : Option UploadSession
  db : Db
  objects : List String
  destroyed : List String := []

/-- A worker that completes: the session as it loaded it, and whether it ingests a stream body. -/
structure Job where
  session : UploadSession
  ingest : Bool := false

/-- An object that is ready to be published, and who removes it when that fails. -/
structure Verified where
  publication : Publication
  cleanup : UploadCleanupPlan

def Verified.storagePath (v : Verified) : String := v.publication.storagePath

/-- Who called `cleanup_remote_upload_state`. -/
inductive Origin
  | terminate | cancel | sweep

/-- Where a worker stands: the call it makes next. -/
inductive Pc
  | idle
  -- a complete call before it owns the session
  | reconcile (u : UploadSession)
  | plan (u : UploadSession)
  | lookup (u : UploadSession)
  | verify (u : UploadSession)
  | reject (u : UploadSession) (e : AsterError)
  | transit (job : Job)
  | claim (job : Job) (now : ℕ)
  -- the assembly
  | stage (job : Job)
  | measure (job : Job) (v : Verified)
  | discard (job : Job) (path : String) (e : AsterError)
  | publish (job : Job) (v : Verified)
  | rollback (job : Job) (v : Verified) (e : AsterError)
  | cleanup (job : Job) (v : Verified) (e : AsterError)
  -- after the assembly
  | clear (job : Job) (f : File)
  | fail (job : Job) (e : AsterError)
  | mark (job : Job) (e : AsterError)
  | returned (result : Except AsterError File)
  -- cancel, chunk requests, cleanup passes
  | cancel (u : UploadSession)
  | chunk (u : UploadSession)
  | terminate (u : UploadSession)
  | sweep (u : UploadSession)
  | expire (u : UploadSession) (leaseDeadline : ℕ)
  | abort (origin : Origin) (u : UploadSession)
  | delete (origin : Origin) (u : UploadSession)
  | forget (origin : Origin)
  | finished

/-- What is chosen for a worker: its request, how its next call ends, a tick of its lease, its death;
and, for a worker without a request, time, chunk receipts and what clients send to the provider. -/
inductive Act (κ : Type)
  | complete | ingest | cancel | chunk | sweep
  | advance (seconds : ℕ)
  | receipts (receivedCount : ℤ)
  | clientPut
  /-- The pending call succeeds. -/
  | ok
  /-- The pending call fails and has no effect. -/
  | error (e : AsterError)
  /-- The pending call fails although it took effect. -/
  | lost (e : AsterError)
  | choosePlan (parts : Option (List (ℤ × String)))
  | measured (size : ℕ)
  /-- The assembly has an object: at the temp key, at a new path, or the object of a content. -/
  | stagedTemp
  | stagedNew (prepared : PreparedNonDedupBlobUpload) (throughTemp : Bool)
  | stagedContent (body : κ)
  /-- The assembly fails, and the object it was building at a new path, or the content object it just
  linked, has to go. -/
  | spoiledNew (path : String) (e : AsterError)
  | spoiledContent (body : κ) (e : AsterError)
  | commit (etag : String)
  /-- The commit is durable, but its outcome is reported as unknown. -/
  | lostCommit (etag message : String)
  /-- The outcome is reported as unknown, and the transaction was rolled back. -/
  | unknownRollback (message : String)
  | chunkFails (e : AsterError) (retryable : Bool)
  | tick
  | crash

variable {κ : Type} (cfg : Setup κ)

namespace Setup

def kind : UploadSessionKind := cfg.row.sessionKind

/-- The status from which the session is completed. -/
def liveStatus : UploadSessionStatus := if cfg.kind.isPresigned then .presigned else .uploading

/-- The path was never used by a blob and is not the temp key: it contains a new UUID. -/
def isNewPath (s : State) (path : String) : Bool :=
  cfg.row.objectTempKey ≠ some path ∧ ∀ b ∈ s.db.blobs.rows, b.storagePath ≠ some path

end Setup

namespace State

def notFound : AsterError := .uploadSessionNotFound { message := "session" }

/-- The provider deletes the object at `path`. -/
def deleteObject (s : State) (path : String) : State :=
  { s with
    objects := s.objects.filter fun q => q ≠ path
    destroyed := if path ∈ s.objects ∧ Live s.db path then path :: s.destroyed else s.destroyed }

def addObject (s : State) (path : String) : State := { s with objects := path :: s.objects }

/-- A conditional update of the session row that may affect no row. -/
def update (s : State) (f : UploadSession → Option UploadSession) : State :=
  { s with session := s.session.map fun u => (f u).getD u }

end State

/-- `DEFERRED_UPLOAD_SESSION_CLEANUP_GRACE_SECS`. -/
def cleanupGraceSecs : ℕ := 15

/-- `ASSEMBLY_LEASE_TIMEOUT_SECS`. -/
def assemblyLeaseTimeoutSecs : ℕ := 60

/-- `upload_stage_error_disposition`: whether the error terminates the session. `retryable` is the
public hint that the error carries. -/
def terminatesSession (retryable : Bool) (e : AsterError) : Bool :=
  match retryable, e with
  | true, _ => false
  | false, .databaseOperation _ | false, .authForbidden _ | false, .uploadSessionNotFound _
  | false, .uploadAssembling _ => false
  | false, e => ¬ (e.payload.apiCode = some .uploadChunkNumberOutOfRange ∨
      e.payload.apiCode = some .uploadChunkTransportMismatch ∨
      e.payload.apiCode = some .uploadStatusConflict)

/-! ### The steps -/

/-- A worker without a request. -/
def stepIdle (s : State) : Act κ → Option (State × Pc)
  | .complete =>
    match s.session with
    | none => some (s, .returned (.error State.notFound))
    | some u =>
      match resolveUploadSessionKind u with
      | .error e => some (s, .returned (.error e))
      | .ok _ =>
        if cfg.kind = .providerRelayResumable ∧ u.status ≠ .completed ∧ u.status ≠ .assembling ∧
            u.status ≠ .failed then some (s, .reconcile u)
        else some (s, .plan u)
  | .ingest =>
    match s.session with
    | none => some (s, .returned (.error State.notFound))
    | some u =>
      if cfg.kind ≠ .stream then
        some (s, .returned (.error (.validationError { message := "upload session does not accept a stream body" })))
      else if u.expiresAt ≤ s.clock then
        some (s, .returned (.error (.uploadSessionExpired { message := "upload session expired" })))
      else if u.status ≠ .uploading then
        some (s, .returned (.error (.conflict
          { message := "stream upload session is no longer accepting a body"
            apiCode := some .uploadStatusConflict })))
      else some (s, .claim { session := u, ingest := true } s.clock)
  | .cancel =>
    match s.session with
    | none => some (s, .finished)
    | some u => some (s, if u.status = .completed then .finished else .cancel u)
  | .chunk =>
    match s.session with
    | none => some (s, .finished)
    | some u => some (s, .chunk u)
  | .sweep =>
    match s.session.filter fun u => u.isExpired s.clock with
    | none => some (s, .finished)
    | some u => some (s, .sweep u)
  | .advance seconds => some ({ s with clock := s.clock + seconds }, .idle)
  | .receipts receivedCount =>
    some (s.update fun u => if u.status = .uploading then some { u with receivedCount } else none, .idle)
  | .clientPut =>
    match cfg.row.objectTempKey with
    | none => none
    | some key => some (s.addObject key, .idle)
  | _ => none

/-- What `claim` answers when the conditional update affects no row. -/
def claimRefused (job : Job) (s : State) (now : ℕ) : AsterError :=
  match s.session with
  | none =>
    if job.ingest then State.notFound else uploadStatusConflict job.session.status cfg.liveStatus
  | some u =>
    if job.ingest then
      if u.expiresAt ≤ s.clock then .uploadSessionExpired { message := "upload session expired" }
      else .conflict
        { message := "stream upload session is already being processed"
          apiCode := some .uploadStatusConflict }
    else if u.status = cfg.liveStatus ∧ u.expiresAt ≤ now then
      .uploadSessionExpired { message := "session expired" }
    else uploadStatusConflict u.status cfg.liveStatus

/-- The conditional update that makes the worker the owner of the assembly; `now` was read before. -/
def stepClaim (job : Job) (now : ℕ) (s : State) : State × Pc :=
  match s.session.bind fun u =>
      u.tryTransitionStatusBeforeExpiry cfg.liveStatus .assembling now with
  | some u => ({ s with session := some u }, .stage job)
  | none => (s, .returned (.error (claimRefused cfg job s now)))

/-- After the plan: the kinds that look at the object before they claim the session do so now. -/
def afterPlan (u : UploadSession) : CompletionPlan → Pc
  | .returnCompleted => .lookup u
  | .completePresigned | .completeProviderResumable => .verify u
  | _ => .transit { session := u }

def sizeMismatch (declared : ℤ) (actual : ℕ) : AsterError :=
  uploadAssemblyError .uploadTempObjectSizeMismatch
    ("size mismatch: declared " ++ toString declared ++ " but uploaded " ++ toString actual)

/-- `find_file_by_session`. -/
def findFileBySession (db : Db) (u : UploadSession) : Except AsterError File :=
  match u.fileId with
  | none => .error (uploadAssemblyError .uploadCompletedFileMissing
      "upload already completed but file_id not found; please refresh")
  | some id =>
    match db.files.get id with
    | none => .error (fileNotFound ("file #" ++ toString id))
    | some f => .ok f

/-- The opaque object at `path`, with the declared size. -/
def opaqueAt (path : String) (cleanup : UploadCleanupPlan) : Verified :=
  { publication := .session (.opaqueObject path cfg.row.totalSize.toNat), cleanup }

/-- The object of a content: linked unless it is already there. A streamed body takes the object back
when it linked it itself, a staged upload leaves it to the garbage collection. -/
def contentVerified (job : Job) (s : State) (body : κ) : Verified :=
  let path := cfg.contentPath (cfg.hash body)
  if job.ingest then
    { publication :=
        .localStream (.contentAddressed (cfg.hash body) path (cfg.length body) cfg.place.policyId)
      cleanup := if path ∈ s.objects then .retainForOrphanBlobGc
        else .rollbackStagedDedupIfUnreferenced }
  else
    { publication := .session (.contentAddressed (cfg.hash body) path (cfg.length body))
      cleanup := .retainForOrphanBlobGc }

/-- The kinds whose bodies may become content objects. -/
def takesContent (kind : UploadSessionKind) : Bool := kind = .offsetStaging ∨ kind = .stream

/-- The kinds that write a prepared blob under a new path. -/
def takesPrepared (kind : UploadSessionKind) : Bool := kind = .offsetStaging ∨ kind = .streamStaging ∨ kind = .stream

/-- The assembly builds its object, or fails. -/
def stepStage (job : Job) (s : State) : Act κ → Option (State × Pc)
  | .stagedTemp =>
    match cfg.row.objectTempKey with
    | none => none
    | some key =>
      if cfg.kind.expectsMultipartId then
        some (s.addObject key, .measure job (opaqueAt cfg key .retainCompletedMultipartObject))
      else if cfg.kind.isProviderResumable then
        some (s, .publish job (opaqueAt cfg key .deleteStorageObjectOnDbFailure))
      else none
  | .stagedNew prepared throughTemp =>
    if cfg.isNewPath s prepared.storagePath = false then none
    else if cfg.kind.isPresignedSingle then
      some (s.addObject prepared.storagePath,
        .measure job (opaqueAt cfg prepared.storagePath .deleteStorageObjectOnDbFailure))
    else if takesPrepared cfg.kind then
      some (s.addObject prepared.storagePath, .publish job
        { publication :=
            if job.ingest then
              if throughTemp then .localStream (.preuploaded prepared) else .directStream prepared
            else .session (.preuploaded prepared)
          cleanup := .cleanupPreuploadedBlobOnDbFailure })
    else none
  | .stagedContent body =>
    if takesContent cfg.kind then
      some (s.addObject (cfg.contentPath (cfg.hash body)), .publish job (contentVerified cfg job s body))
    else none
  | .spoiledNew path e =>
    if takesPrepared cfg.kind ∧ cfg.isNewPath s path then
      some (s.addObject path, .discard job path e)
    else none
  | .spoiledContent body e =>
    -- `remove_file` after a link whose target fails the size check
    let path := cfg.contentPath (cfg.hash body)
    if takesContent cfg.kind ∧ path ∉ s.objects then some (s.addObject path, .discard job path e)
    else none
  | .error e => some (s, .fail job e)
  | _ => none

/-- After a transaction that certainly failed, by the cleanup plan. -/
def afterFailedTransaction (job : Job) (v : Verified) (e : AsterError) : Pc :=
  match v.cleanup with
  | .deleteStorageObjectOnDbFailure | .cleanupPreuploadedBlobOnDbFailure => .cleanup job v e
  | .rollbackStagedDedupIfUnreferenced => .rollback job v e
  | .retainForOrphanBlobGc | .retainCompletedMultipartObject => .fail job e

/-- After a committed transaction: a presigned single upload removes the client's copy. -/
def afterCommit (job : Job) (v : Verified) (f : File) : Pc :=
  if cfg.kind.isPresignedSingle ∧ cfg.row.objectTempKey ≠ some v.storagePath then .clear job f
  else .returned (.ok f)

/-- The publishing transaction, on the rows as they are now. -/
def runPublication (v : Verified) (etag : String) (s : State) : Except AsterError (File × UploadSession × Db) :=
  v.publication.publish cfg.place cfg.row.id s.session s.clock etag s.db

def stepPublish (job : Job) (v : Verified) (s : State) : Act κ → Option (State × Pc)
  | .commit etag =>
    match runPublication cfg v etag s with
    | .ok (f, u, db) => some ({ s with session := some u, db }, afterCommit cfg job v f)
    | .error e => some (s, afterFailedTransaction job v e)
  | .lostCommit etag message =>
    match runPublication cfg v etag s with
    | .ok (_, u, db) =>
      some ({ s with session := some u, db }, .fail job (.commitOutcomeUnknown message))
    | .error e => some (s, afterFailedTransaction job v e)
  | .unknownRollback message => some (s, .fail job (.commitOutcomeUnknown message))
  | .error e =>
    if e.databaseCommitOutcomeUncertain then none else some (s, afterFailedTransaction job v e)
  | _ => none

/-- A delete call whose failure is only logged. -/
def stepDelete (path : String) (next : Pc) (s : State) : Act κ → Option (State × Pc)
  | .ok | .lost _ => some (s.deleteObject path, next)
  | .error _ => some (s, next)
  | _ => none

/-- The error handling of an ingest, and `handle_completion_error`. -/
def stepFail (job : Job) (e : AsterError) (s : State) : Act κ → Option (State × Pc)
  | .ok =>
    if job.ingest then
      some (s.update fun u =>
        u.tryFailWithExpiration .assembling (s.clock + cleanupGraceSecs) s.clock,
        .returned (.error e))
    else if uploadCompletionErrorIsRetryable e then
      some (s.update fun u => u.tryTransitionStatus .assembling cfg.liveStatus s.clock, .returned (.error e))
    else
      match s.session with
      | none => some (s, .returned (.error e))
      | some _ => some (s, .mark job e)
  | .error e' => some (s, .returned (.error (if job.ingest then e' else e)))
  | _ => none

/-- A conditional update whose success decides how to go on. -/
def stepUpdate (s : State) (f : UploadSession → Option UploadSession) (next : Pc) : State × Pc :=
  match s.session.bind f with
  | some u => ({ s with session := some u }, next)
  | none => (s, .finished)

/-- `cancel_upload_impl` after it loaded a session that is not completed. -/
def stepCancel (u : UploadSession) (s : State) : State × Pc :=
  if u.status = .assembling then
    stepUpdate s (fun r => r.tryFailWithExpiration .assembling (s.clock + assemblyLeaseTimeoutSecs) s.clock) .finished
  else
    stepUpdate s (fun r => r.tryFailWithExpiration u.status (s.clock + cleanupGraceSecs) s.clock) (.abort .cancel u)

/-- One session of a `cleanup_expired` pass. -/
def stepSweep (u : UploadSession) (s : State) : Pc :=
  if u.status = .failed ∧ s.clock < u.updatedAt + assemblyLeaseTimeoutSecs then .finished
  else if u.status = .assembling then
    if s.clock < u.updatedAt + assemblyLeaseTimeoutSecs then .finished
    else .expire u (s.clock - assemblyLeaseTimeoutSecs)
  else .abort .sweep u

/-- The first half of `cleanup_remote_upload_state`. -/
def afterAbort (origin : Origin) (u : UploadSession) : Pc :=
  if cfg.kind.expectsTempKey ∧ cfg.row.objectTempKey.isSome then .delete origin u else .forget origin

/-- `delete_temp_object_for_cleanup`; after an error the object is looked up. -/
def stepDeleteTemp (origin : Origin) (s : State) (a : Act κ) : Option (State × Pc) :=
  match cfg.row.objectTempKey, a with
  | some key, .ok | some key, .lost _ => some (s.deleteObject key, .forget origin)
  | some key, .error e =>
    if key ∉ s.objects ∨ classifyUploadStorageError e = .notFound then some (s, .forget origin)
    else some (s, .finished)
  | _, _ => none

/-- The row goes: unconditionally, or only while it may be cancelled. -/
def forgetRow (origin : Origin) (s : State) : State :=
  match origin with
  | .terminate | .sweep => { s with session := none }
  | .cancel => { s with session := s.session.filter fun u => u.isCancellable = false }

/-- The pcs that run under `run_with_assembly_lease`. -/
def Pc.leased : Pc → Bool
  | .verify _ | .reject _ _ => true
  | .transit job | .claim job _ | .stage job | .measure job _ | .discard job _ _ | .publish job _
  | .rollback job _ _ | .cleanup job _ _ | .clear job _ | .fail job _ | .mark job _ =>
    job.ingest = false
  | _ => false

def leaseLost : AsterError := .conflict { message := "upload assembly was canceled or completed by another request" }

/-- A tick of the lease: the row is touched, or the call is dropped. -/
def stepTick (s : State) (p : Pc) : State × Pc :=
  match s.session.bind fun u => u.touchAssembling s.clock with
  | some u => ({ s with session := some u }, p)
  | none => (s, .returned (.error leaseLost))

/-- The call that a worker makes next. -/
def stepCall (a : Act κ) (s : State) : Pc → Option (State × Pc)
  | .idle => stepIdle cfg s a
  | .reconcile _ =>
    match a with
    | .ok =>
      match s.session with
      | none => some (s, .returned (.error State.notFound))
      | some u => some (s, .plan u)
    | .error e => some (s, .returned (.error e))
    | _ => none
  | .plan u =>
    match a with
    | .choosePlan parts =>
      match determineCompletionPlan u cfg.kind parts s.clock with
      | .error e => some (s, .returned (.error e))
      | .ok plan => some (s, afterPlan u plan)
    | _ => none
  | .lookup u =>
    match a with
    | .ok => some (s, .returned (findFileBySession s.db u))
    | .error e => some (s, .returned (.error e))
    | _ => none
  | .verify u =>
    match a with
    | .measured size =>
      -- a resumable session of a provider has one size
      if cfg.kind.isProviderResumable ∧ (size : ℤ) ≠ cfg.providerSize then none
      else if (size : ℤ) = cfg.row.totalSize then some (s, .transit { session := u })
      else some (s, .reject u (sizeMismatch cfg.row.totalSize size))
    | .error e => some (s, .returned (.error e))
    | _ => none
  | .reject _ e =>
    match cfg.row.objectTempKey with
    | none => none
    | some key => stepDelete key (.returned (.error e)) s a
  | .transit job =>
    match a with
    | .ok => some (s, .claim job s.clock)
    | .error e => some (s, .returned (.error e))
    | _ => none
  | .claim job now =>
    match a with
    | .ok => some (stepClaim cfg job now s)
    | .error e => some (s, .returned (.error e))
    | _ => none
  | .stage job => stepStage cfg job s a
  | .measure job v =>
    match a with
    | .measured size =>
      if (size : ℤ) = cfg.row.totalSize then some (s, .publish job v)
      else some (s, .discard job v.storagePath (sizeMismatch cfg.row.totalSize size))
    | .error e => some (s, .fail job e)
    | _ => none
  | .discard job path e => stepDelete path (.fail job e) s a
  | .publish job v => stepPublish cfg job v s a
  | .rollback job v e =>
    match a with
    | .ok =>
      -- `find_blob_by_hash`
      if s.db.blobs.rows.any fun b => v.publication.fileHash cfg.place cfg.row.id = some b.hash ∧
          b.policyId = cfg.place.policyId ∧ b.backing = .stored then some (s, .fail job e)
      else some (s, .cleanup job v e)
    | .error _ => some (s, .fail job e)
    | _ => none
  | .cleanup job v e => stepDelete v.storagePath (.fail job e) s a
  | .clear _ f =>
    match cfg.row.objectTempKey with
    | none => none
    | some key => stepDelete key (.returned (.ok f)) s a
  | .fail job e => stepFail cfg job e s a
  | .mark _ e =>
    match a with
    | .ok => some (s.update fun u => some (u.markFailed s.clock), .returned (.error e))
    | .error _ => some (s, .returned (.error e))
    | _ => none
  | .cancel u =>
    match a with
    | .ok => some (stepCancel u s)
    | .error _ => some (s, .finished)
    | _ => none
  | .chunk u =>
    match a with
    | .ok => some (s, .finished)
    | .chunkFails e retryable =>
      some (s, if terminatesSession retryable e ∧ (u.status = .uploading ∨ u.status = .presigned)
        then .terminate u else .finished)
    | _ => none
  | .terminate u =>
    match a with
    | .ok => some (stepUpdate s (fun r => r.tryFailWithExpiration u.status (s.clock + cleanupGraceSecs) s.clock)
        (.abort .terminate u))
    | .error _ => some (s, .finished)
    | _ => none
  | .sweep u =>
    match a with
    | .ok => some (s, stepSweep u s)
    | _ => none
  | .expire u leaseDeadline =>
    match a with
    | .ok => some (stepUpdate s (fun r => r.tryFailWithExpirationIfLeaseStale leaseDeadline
        (s.clock + cleanupGraceSecs) s.clock) (.abort .sweep u))
    | .error _ => some (s, .finished)
    | _ => none
  | .abort origin u =>
    match a with
    | .ok => some (s, afterAbort cfg origin u)
    | .error e =>
      some (s, if classifyUploadStorageError e = .notFound then afterAbort cfg origin u else .finished)
    | _ => none
  | .delete origin _ => stepDeleteTemp cfg origin s a
  | .forget origin =>
    match a with
    | .ok => some (forgetRow origin s, .finished)
    | .error _ => some (s, .finished)
    | _ => none
  | .returned _ | .finished => none

/-- One step of one worker. -/
def step (a : Act κ) (s : State) (p : Pc) : Option (State × Pc) :=
  match a with
  | .crash => some (s, .finished)
  | .tick => if p.leased then some (stepTick s p) else none
  | a => stepCall cfg a s p

def system : System State Pc (Act κ) := ⟨step cfg⟩

/-- The session as created, and no worker busy. -/
def start (clock : ℕ) (objects : List String) : Config State Pc where
  shared := { clock, session := some cfg.row, db := cfg.db, objects }
  proc _ := .idle

end AsterDrive.Upload.Lifecycle
