import AsterDrive.Db.Schema

/-!
# Tasks/Repo — the rows of the background tasks, and their guarded updates

`background_tasks`, `background_task_repo` and `task/cancel.rs`. Every statement that writes a row is an
`UPDATE` of one row by its id, with a condition on the status and, for whoever holds a lease, on the
token. Such a statement is a `GuardedUpdate`: the id, the condition, and what it writes. It reports
whether it changed a row.

Which token a claim is to write comes from `task_claim_candidates`, which is not part of the
repository: `nextToken` is its answer, `none` if it refuses.
-/

namespace AsterDrive.Tasks

open Db

inductive BackgroundTaskStatus
  | pending | processing | canceling | retry | succeeded | failed | canceled
  deriving DecidableEq

inductive BackgroundTaskKind
  | archiveExtract | archiveCompress | archivePreviewGenerate | thumbnailGenerate | imagePreviewGenerate
  | mediaMetadataExtract | trashPurgeAll | folderTreeMutation | storagePolicyTempCleanup
  | storagePolicyMigration | storagePolicyForcedPurge | blobMaintenance | offlineDownload | systemRuntime
  deriving DecidableEq

/-- `is_terminal`. -/
def BackgroundTaskStatus.isTerminal : BackgroundTaskStatus → Bool
  | .succeeded | .failed | .canceled => true
  | _ => false

/-- `background_task::Model`, without the columns that only presentation reads. -/
structure BackgroundTask where
  id : ℕ
  kind : BackgroundTaskKind
  status : BackgroundTaskStatus
  creatorUserId : Option ℕ
  teamId : Option ℕ
  displayName : String
  payloadJson : String
  resultJson : Option String := none
  runtimeJson : Option String := none
  stepsJson : Option String := none
  progressCurrent : ℤ := 0
  progressTotal : ℤ := 0
  statusText : Option String := none
  attemptCount : ℤ := 0
  maxAttempts : ℤ
  nextRunAt : ℕ
  processingToken : ℕ := 0
  processingStartedAt : Option ℕ := none
  lastHeartbeatAt : Option ℕ := none
  leaseExpiresAt : Option ℕ := none
  startedAt : Option ℕ := none
  finishedAt : Option ℕ := none
  lastError : Option String := none
  failureCanRetry : Option Bool := none
  expiresAt : ℕ
  createdAt : ℕ
  updatedAt : ℕ

abbrev BackgroundTasks := SerialTable BackgroundTask.id

/-- An `UPDATE` of one row. -/
structure GuardedUpdate where
  id : ℕ
  guard : BackgroundTask → Bool
  set : BackgroundTask → BackgroundTask
  sameId : ∀ r, (set r).id = r.id

namespace GuardedUpdate

/-- The rows that the statement matches. -/
def hits (u : GuardedUpdate) (r : BackgroundTask) : Bool := decide (r.id = u.id) && u.guard r

/-- The statement: whether one row was affected, and the table after it. -/
def exec (u : GuardedUpdate) (t : BackgroundTasks) : Bool × BackgroundTasks :=
  (t.rows.any u.hits, t.updateRows u.hits u.set u.sameId)

variable {u : GuardedUpdate} {t : BackgroundTasks} {i : ℕ} {r : BackgroundTask}

theorem get_exec (u : GuardedUpdate) (t : BackgroundTasks) (i : ℕ) :
    (u.exec t).2.get i = (t.get i).map fun r => if u.hits r then u.set r else r :=
  SerialTable.get_updateRows ..

theorem exec_fst : (u.exec t).1 = true ↔ ∃ r, t.get u.id = some r ∧ u.guard r = true := by
  show t.rows.any u.hits = true ↔ _
  rw [List.any_eq_true]
  constructor
  · rintro ⟨r, hr, hhit⟩
    obtain ⟨hid, hguard⟩ := Bool.and_eq_true_iff.mp hhit
    exact ⟨r, of_decide_eq_true hid ▸ Table.get_of_mem hr, hguard⟩
  · rintro ⟨r, hr, hguard⟩
    refine ⟨r, Table.mem_of_get hr, ?_⟩
    rw [hits, hguard, Bool.and_true, decide_eq_true_eq]
    exact Table.key_of_get hr

theorem exec_miss (h : (u.exec t).1 = false) : (u.exec t).2 = t := by
  refine SerialTable.updateRows_of_none t fun r hr => ?_
  exact Bool.eq_false_iff.mpr (List.any_eq_false.mp h r hr)

theorem get_exec_cases (h : t.get i = some r) : (u.exec t).2.get i = some r ∨
      i = u.id ∧ u.guard r = true ∧ (u.exec t).1 = true ∧ (u.exec t).2.get i = some (u.set r) := by
  rw [get_exec, h, Option.map_some]
  by_cases hhit : u.hits r
  · obtain ⟨hid, hguard⟩ := Bool.and_eq_true_iff.mp hhit
    have hi : i = u.id := (Table.key_of_get h).symm.trans (of_decide_eq_true hid)
    refine .inr ⟨hi, hguard, (exec_fst).mpr ⟨r, hi ▸ h, hguard⟩, ?_⟩
    rw [if_pos hhit]
  · rw [if_neg hhit]
    exact .inl rfl

end GuardedUpdate

/-! ### Conditions -/

/-- The filter of everything that a lease writes: the row is being processed, under this token. -/
def leased (processingToken : ℕ) (r : BackgroundTask) : Bool :=
  decide (r.status = .processing) && decide (r.processingToken = processingToken)

/-- `processing_stale_condition`. -/
def processingStale (now : ℕ) (r : BackgroundTask) : Bool :=
  (decide (r.status = .processing) || decide (r.status = .canceling)) && r.leaseExpiresAt.any fun e => e ≤ now

/-- `claimable_condition`; the time before which a lease counts as stale is not looked at. -/
def claimable (now : ℕ) (r : BackgroundTask) : Bool :=
  (decide (r.status = .pending) || decide (r.status = .retry)) && decide (r.nextRunAt ≤ now) ||
    processingStale now r

/-- `active_processing_by_kinds_condition`. -/
def activeProcessing (now : ℕ) (kinds : List BackgroundTaskKind) (r : BackgroundTask) : Bool :=
  (decide (r.status = .processing) || decide (r.status = .canceling)) &&
    (r.leaseExpiresAt.any fun e => now < e) && decide (r.kind ∈ kinds)

/-! ### Claims and renewals -/

/-- `try_claim`. -/
def tryClaim (id expectedProcessingToken now nextProcessingToken leaseExpiresAt : ℕ) : GuardedUpdate where
  id := id
  guard r := decide (r.processingToken = expectedProcessingToken) && claimable now r
  set r :=
    { r with
      status := if r.status = .canceling then .canceling else .processing
      processingStartedAt := some now
      lastHeartbeatAt := some now
      processingToken := nextProcessingToken
      leaseExpiresAt := some leaseExpiresAt
      startedAt := some (r.startedAt.getD now)
      updatedAt := now }
  sameId _ := rfl

/-- `touch_heartbeat`. -/
def touchHeartbeat (id processingToken now leaseExpiresAt : ℕ) : GuardedUpdate where
  id := id
  guard := leased processingToken
  set r := { r with lastHeartbeatAt := some now, leaseExpiresAt := some leaseExpiresAt }
  sameId _ := rfl

/-- `TaskProgressUpdate`. -/
structure TaskProgressUpdate where
  id : ℕ
  processingToken : ℕ
  now : ℕ
  leaseExpiresAt : ℕ
  current : ℤ
  total : ℤ
  statusText : Option String
  stepsJson : Option String

/-- `mark_progress`. -/
def markProgress (u : TaskProgressUpdate) : GuardedUpdate where
  id := u.id
  guard := leased u.processingToken
  set r :=
    { r with
      progressCurrent := u.current
      progressTotal := u.total
      statusText := u.statusText
      lastHeartbeatAt := some u.now
      leaseExpiresAt := some u.leaseExpiresAt
      updatedAt := u.now
      stepsJson := u.stepsJson.or r.stepsJson }
  sameId _ := rfl

/-- `set_runtime_json`. -/
def setRuntimeJson (id processingToken : ℕ) (runtimeJson : Option String) (now : ℕ) : GuardedUpdate where
  id := id
  guard := leased processingToken
  set r := { r with runtimeJson, updatedAt := now }
  sameId _ := rfl

/-- `set_display_name`. -/
def setDisplayName (id processingToken : ℕ) (displayName : String) (now : ℕ) : GuardedUpdate where
  id := id
  guard := leased processingToken
  set r := { r with displayName, updatedAt := now }
  sameId _ := rfl

/-! ### Ends of an attempt -/

/-- `TaskSuccessUpdate`. -/
structure TaskSuccessUpdate where
  id : ℕ
  processingToken : ℕ
  resultJson : Option String
  stepsJson : Option String
  current : ℤ
  total : ℤ
  statusText : Option String
  finishedAt : ℕ
  expiresAt : ℕ

/-- The three columns of a lease other than its token, when nobody holds it. -/
def BackgroundTask.withoutLease (r : BackgroundTask) : BackgroundTask :=
  { r with processingStartedAt := none, lastHeartbeatAt := none, leaseExpiresAt := none }

/-- `mark_succeeded`. -/
def markSucceeded (u : TaskSuccessUpdate) : GuardedUpdate where
  id := u.id
  guard := leased u.processingToken
  set r :=
    { r.withoutLease with
      status := .succeeded
      resultJson := u.resultJson
      progressCurrent := u.current
      progressTotal := u.total
      statusText := u.statusText
      finishedAt := some u.finishedAt
      expiresAt := u.expiresAt
      updatedAt := u.finishedAt
      stepsJson := u.stepsJson.or r.stepsJson }
  sameId _ := rfl

/-- `mark_retry`. -/
def markRetry (id processingToken : ℕ) (attemptCount : ℤ) (nextRunAt : ℕ) (lastError : String)
    (stepsJson : Option String) (now : ℕ) : GuardedUpdate where
  id := id
  guard := leased processingToken
  set r :=
    { r.withoutLease with
      status := .retry
      attemptCount
      nextRunAt
      statusText := none
      lastError := some lastError
      updatedAt := now
      stepsJson := stepsJson.or r.stepsJson }
  sameId _ := rfl

/-- The statement of `release_processing`; see `releaseProcessing` for the statuses it is given. -/
def releaseProcessingTo (id processingToken now : ℕ) (status : BackgroundTaskStatus) : GuardedUpdate where
  id := id
  guard := leased processingToken
  set r := { r.withoutLease with status, nextRunAt := now, statusText := none, updatedAt := now }
  sameId _ := rfl

/-- `release_processing`. -/
def releaseProcessing (id processingToken now : ℕ) (status : BackgroundTaskStatus) :
    Except AsterError GuardedUpdate :=
  if status = .pending ∨ status = .retry then .ok (releaseProcessingTo id processingToken now status)
  else .error (.internalError { message := "released background task status must be pending or retry" })

/-- `TaskFailureUpdate`. -/
structure TaskFailureUpdate where
  id : ℕ
  processingToken : ℕ
  attemptCount : ℤ
  lastError : String
  finishedAt : ℕ
  expiresAt : ℕ
  stepsJson : Option String
  failureCanRetry : Bool

/-- `mark_failed`. -/
def markFailed (u : TaskFailureUpdate) : GuardedUpdate where
  id := u.id
  guard := leased u.processingToken
  set r :=
    { r.withoutLease with
      status := .failed
      attemptCount := u.attemptCount
      statusText := none
      lastError := some u.lastError
      failureCanRetry := some u.failureCanRetry
      finishedAt := some u.finishedAt
      expiresAt := u.expiresAt
      updatedAt := u.finishedAt
      stepsJson := u.stepsJson.or r.stepsJson }
  sameId _ := rfl

/-- The statement of `acknowledge`. -/
def acknowledgeCancel (id processingToken now expiresAt : ℕ) : GuardedUpdate where
  id := id
  guard r := decide (r.processingToken = processingToken) && decide (r.status = .canceling)
  set r :=
    { r.withoutLease with
      status := .canceled
      finishedAt := some now
      updatedAt := now
      expiresAt
      statusText := some "Canceled; completed changes retained"
      failureCanRetry := some true }
  sameId _ := rfl

/-! ### Requests of users -/

/-- What a cancel request does to a row that is waiting. -/
def cancelQueued (now expiresAt : ℕ) (r : BackgroundTask) : BackgroundTask :=
  { r.withoutLease with
    status := .canceled
    statusText := some "Canceled"
    finishedAt := some now
    expiresAt
    failureCanRetry := some true
    updatedAt := now }

/-- What a cancel request does to a row that is being processed. -/
def cancelRunning (now : ℕ) (r : BackgroundTask) : BackgroundTask :=
  { r with status := .canceling, statusText := some "Cancellation requested", updatedAt := now }

/-- A row that waits to be claimed. -/
def queued (r : BackgroundTask) : Bool := decide (r.status = .pending) || decide (r.status = .retry)

/-- The update of `request`, in the transaction that has the row locked: the kinds and the statuses that
it does not refuse. -/
def requestCancel (id now expiresAt : ℕ) : GuardedUpdate where
  id := id
  guard r := decide (r.kind ≠ .systemRuntime) && (queued r || decide (r.status = .processing))
  set r := if queued r then cancelQueued now expiresAt r else cancelRunning now r
  sameId r := by
    split_ifs <;> rfl

/-- `task_can_retry`. -/
def taskCanRetry (r : BackgroundTask) : Bool :=
  (decide (r.status = .failed) || decide (r.status = .canceled)) && r.failureCanRetry.getD true

/-- `reset_for_manual_retry`. -/
def resetForManualRetry (id now : ℕ) (maxAttempts : ℤ) (stepsJson : Option String) : GuardedUpdate where
  id := id
  guard r := decide (r.status = .failed) || decide (r.status = .canceled)
  set r :=
    { r.withoutLease with
      status := .pending
      attemptCount := 0
      progressCurrent := 0
      maxAttempts
      nextRunAt := now
      startedAt := none
      finishedAt := none
      statusText := none
      lastError := none
      resultJson := none
      failureCanRetry := none
      updatedAt := now
      stepsJson := stepsJson.or r.stepsJson }
  sameId _ := rfl

/-- `refresh_system_runtime_success`. -/
def refreshSystemRuntimeSuccess (id : ℕ) (resultJson : String) (statusText : Option String)
    (nextRunAt startedAt finishedAt expiresAt : ℕ) : GuardedUpdate where
  id := id
  guard r := decide (r.kind = .systemRuntime) && decide (r.status = .succeeded)
  set r :=
    { r.withoutLease with
      status := .succeeded
      resultJson := some resultJson
      progressCurrent := 1
      progressTotal := 1
      statusText
      nextRunAt
      startedAt := some startedAt
      finishedAt := some finishedAt
      lastError := none
      failureCanRetry := none
      expiresAt
      updatedAt := finishedAt }
  sameId _ := rfl

end AsterDrive.Tasks
