import AsterDrive.Upload.Session

/-!
# Completion — the steps that every completion of an upload shares

`determineCompletionPlan` decides from the loaded row what a complete call has to do,
`handleCompletionError` what happens to the session when the assembly fails: a retryable error gives
the session back, any other error fails it. `UploadCleanupPlan` says who owns the uploaded object when
the publishing transaction fails.
-/

namespace AsterDrive.Upload

/-- `upload_assembly_error_with_code`. -/
def uploadAssemblyError (apiCode : ApiErrorCode) (message : String) : AsterError :=
  .uploadAssemblyFailed { message, apiCode := some apiCode }

/-! ### The kind of a session -/

namespace UploadSessionKind

def expectsMultipartId : UploadSessionKind → Bool
  | providerRelayMultipart | providerPresignedMultipart | remoteRelayMultipart
  | remotePresignedMultipart => true
  | _ => false

/-- The kinds that keep an object at `object_temp_key`. -/
def expectsTempKey : UploadSessionKind → Bool
  | stream | offsetStaging | streamStaging => false
  | _ => true

def isPresignedSingle : UploadSessionKind → Bool
  | providerPresignedSingle | remotePresignedSingle => true
  | _ => false

def isProviderResumable : UploadSessionKind → Bool
  | providerDirectResumable | providerRelayResumable => true
  | _ => false

end UploadSessionKind

/-- `validate_persisted_kind`, without the provider's encrypted session. -/
def resolveUploadSessionKind (s : UploadSession) : Except AsterError UploadSessionKind :=
  if s.sessionKind.expectsMultipartId ≠ s.objectMultipartId.isSome then
    .error (uploadAssemblyError .uploadSessionCorrupted
      ("session kind " ++ s.sessionKind.asStr ++ " does not match multipart fields"))
  else if s.sessionKind.expectsTempKey ≠ s.objectTempKey.isSome then
    .error (uploadAssemblyError .uploadSessionCorrupted
      ("session kind " ++ s.sessionKind.asStr ++ " does not match temporary object fields"))
  else .ok s.sessionKind

/-! ### The plan -/

inductive CompletionPlan
  | returnCompleted
  | completePresigned
  | completePresignedMultipart (parts : List (ℤ × String))
  | completeRelayMultipart
  | completeProviderResumable
  | completeChunked
  deriving DecidableEq

def requireAllChunksReceived (s : UploadSession) (plan : CompletionPlan) :
    Except AsterError CompletionPlan :=
  if s.receivedCount ≠ s.totalChunks then
    .error (uploadAssemblyError .uploadIncompleteChunks
      ("expected " ++ toString s.totalChunks ++ " chunks, got " ++ toString s.receivedCount))
  else .ok plan

/-- The last `match` of `determine_completion_plan`: a session that is live, by its kind. -/
def planOfKind (s : UploadSession) (kind : UploadSessionKind) (parts : Option (List (ℤ × String))) :
    Except AsterError CompletionPlan :=
  match kind with
  | .stream => .error (uploadAssemblyError .uploadIncompleteChunks "stream body must be uploaded before completion")
  | .providerPresignedMultipart | .remotePresignedMultipart =>
    match parts with
    | none => .error (.validationError
        { message := "parts required for multipart upload completion"
          apiCode := some .uploadPartsRequired })
    | some parts => .ok (.completePresignedMultipart parts)
  | .providerPresignedSingle | .remotePresignedSingle => .ok .completePresigned
  | .providerRelayMultipart | .remoteRelayMultipart => .ok .completeRelayMultipart
  | .providerDirectResumable => .ok .completeProviderResumable
  | .providerRelayResumable => requireAllChunksReceived s .completeProviderResumable
  | .offsetStaging | .streamStaging => requireAllChunksReceived s .completeChunked

def determineCompletionPlan (s : UploadSession) (kind : UploadSessionKind)
    (parts : Option (List (ℤ × String))) (now : ℕ) : Except AsterError CompletionPlan :=
  if s.status = .completed then .ok .returnCompleted
  else if s.status = .assembling then
    .error (.uploadAssembling { message := "upload is being processed, please wait and retry in a few seconds" })
  else if s.expiresAt ≤ now then .error (.uploadSessionExpired { message := "session expired" })
  else if s.status = .failed then
    .error (uploadAssemblyError .uploadPreviousFailure "upload assembly failed previously; please start a new upload")
  else planOfKind s kind parts

section

variable {s : UploadSession} {kind : UploadSessionKind} {parts : Option (List (ℤ × String))} {now : ℕ}
  {plan : CompletionPlan}

theorem requireAllChunksReceived_ok {plan' : CompletionPlan}
    (h : requireAllChunksReceived s plan = .ok plan') : plan = plan' := by
  unfold requireAllChunksReceived at h
  split_ifs at h
  exact Except.ok.inj h

theorem planOfKind_ne : planOfKind s kind parts ≠ .ok .returnCompleted := by
  intro h
  cases kind with
  | providerPresignedMultipart | remotePresignedMultipart =>
    cases parts with
    | none | some ps => simp [planOfKind] at h
  | providerRelayResumable | offsetStaging | streamStaging =>
    have hplan := requireAllChunksReceived_ok h
    simp at hplan
  | stream | providerRelayMultipart | providerPresignedSingle | remoteRelayMultipart
  | remotePresignedSingle | providerDirectResumable => simp [planOfKind] at h

/-- Presigned single uploads and resumable sessions of a provider have a plan of their own. -/
theorem planOfKind_own (h : planOfKind s kind parts = .ok plan) :
    (plan = .completePresigned → kind.isPresignedSingle = true) ∧
      (plan = .completeProviderResumable ↔ kind.isProviderResumable = true) := by
  cases kind with
  | providerPresignedMultipart | remotePresignedMultipart =>
    cases parts with
    | none => simp [planOfKind] at h
    | some ps =>
      cases h
      simp [UploadSessionKind.isProviderResumable]
  | providerRelayResumable | offsetStaging | streamStaging =>
    obtain rfl := requireAllChunksReceived_ok h
    simp [UploadSessionKind.isProviderResumable]
  | stream => simp [planOfKind] at h
  | providerRelayMultipart | providerPresignedSingle | remoteRelayMultipart
  | remotePresignedSingle | providerDirectResumable =>
    cases h
    simp [UploadSessionKind.isProviderResumable, UploadSessionKind.isPresignedSingle]

theorem determineCompletionPlan_returnCompleted (h : determineCompletionPlan s kind parts now = .ok .returnCompleted) :
    s.status = .completed := by
  unfold determineCompletionPlan at h
  split_ifs at h with hcomp hasm hexp hfail
  · exact hcomp
  · exact absurd h planOfKind_ne

theorem determineCompletionPlan_live (h : determineCompletionPlan s kind parts now = .ok plan)
    (hplan : plan ≠ .returnCompleted) :
    s.status ≠ .completed ∧ s.status ≠ .failed ∧ s.status ≠ .assembling := by
  unfold determineCompletionPlan at h
  split_ifs at h with hcomp hasm hexp hfail
  · exact absurd (Except.ok.inj h).symm hplan
  · exact ⟨hcomp, hfail, hasm⟩

theorem determineCompletionPlan_own (h : determineCompletionPlan s kind parts now = .ok plan)
    (hplan : plan ≠ .returnCompleted) :
    (plan = .completePresigned → kind.isPresignedSingle = true) ∧
      (plan = .completeProviderResumable ↔ kind.isProviderResumable = true) := by
  unfold determineCompletionPlan at h
  split_ifs at h
  · exact absurd (Except.ok.inj h).symm hplan
  · exact planOfKind_own h

end

/-! ### After a failed assembly -/

/-- The write of `mark_session_failed`: by id only, whatever the status is by then. -/
def UploadSession.markFailed (s : UploadSession) (now : ℕ) : UploadSession :=
  { s with status := .failed, updatedAt := now }

/-- `restore_session_status_after_retryable_completion_error`. -/
def UploadSession.restoreStatus (s : UploadSession) (restore : UploadSessionStatus) (now : ℕ) :
    UploadSession :=
  (s.tryTransitionStatus .assembling restore now).getD s

/-- `handle_completion_error`, when nothing else touches the session meanwhile. -/
def handleCompletionError (s : UploadSession) (restore : UploadSessionStatus) (e : AsterError)
    (now : ℕ) : UploadSession :=
  if uploadCompletionErrorIsRetryable e then s.restoreStatus restore now else s.markFailed now

/-- `mark_upload_session_completed`, the last statement of the publishing transaction. -/
def markUploadSessionCompleted (s : UploadSession) (fileId now : ℕ) :
    Except AsterError UploadSession :=
  match s.completeIfAssembling fileId now with
  | some s' => .ok s'
  | none =>
    if s.status = .failed then
      .error (uploadAssemblyError .uploadPreviousFailure "upload was canceled during assembly")
    else .error (uploadStatusConflict s.status .assembling)

/-- `UploadCleanupPlan`: what happens to the stored object when the transaction fails. The last plan is
`TempStoreBlobCleanupPlan::RollbackStagedDedupIfUnreferenced` of a streamed body. -/
inductive UploadCleanupPlan
  | deleteStorageObjectOnDbFailure | cleanupPreuploadedBlobOnDbFailure | retainForOrphanBlobGc
  | retainCompletedMultipartObject | rollbackStagedDedupIfUnreferenced

/-- The plans that remove the object. -/
def UploadCleanupPlan.deletes : UploadCleanupPlan → Bool
  | deleteStorageObjectOnDbFailure | cleanupPreuploadedBlobOnDbFailure
  | rollbackStagedDedupIfUnreferenced => true
  | retainForOrphanBlobGc | retainCompletedMultipartObject => false

end AsterDrive.Upload
