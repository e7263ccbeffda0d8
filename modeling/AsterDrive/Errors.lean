import Mathlib.Data.Nat.Notation

/-!
# Errors — `AsterError`, as far as control flow reads it

An `AsterError` is a variant with a payload: the message, the public error code that some
constructors attach, the storage classification that a driver error carries, and the flag
`database_commit_outcome_uncertain` of a commit whose outcome the server does not know.

`classifyUploadStorageError` is the table that completion uses to decide between giving the session
back (`retryable`) and failing it.
-/

namespace AsterDrive

/-- `StorageErrorKind`: how a storage driver classifies a failed call. -/
inductive StorageErrorKind
  | auth | misconfigured | notFound | permission | precondition | rateLimited | transient
  | unsupported | unknown
  deriving DecidableEq

/-- The public error codes that the modelled functions attach. -/
inductive ApiErrorCode
  | uploadChunkNumberOutOfRange | uploadSessionCorrupted | uploadChunkSizeMismatch
  | uploadChunkSessionInvalid | uploadChunkPersistFailed | uploadChunkTransportMismatch
  | uploadCompletedFileMissing | uploadStatusConflict | uploadIncompleteParts | uploadMissingPart
  | uploadPartsRequired | uploadIncompleteChunks | uploadTempObjectMissing
  | uploadTempObjectSizeMismatch | uploadChunkPending | uploadAssemblyIoFailed
  | uploadChunkTooLarge | uploadPreviousFailure | fileModifiedDuringWrite | fileEtagMismatch
  | workspaceScopeDenied | fileNameConflict | folderNameConflict | lockNotOwner | trashPurgeInProgress
  | policyBlobReferencesExist | policyUploadSessionsExist | teamNotMember | teamOwnerRequired | teamAdminOrOwnerRequired
  | teamMemberExists | uploadCapacityUnavailable
  deriving DecidableEq

structure AsterErrorPayload where
  message : String
  apiCode : Option ApiErrorCode := none
  storageKind : Option StorageErrorKind := none
  databaseCommitOutcomeUncertain : Bool := false
  deriving DecidableEq

/-- `AsterError`: the variants that the modelled functions build or test. -/
inductive AsterError
  | databaseOperation (payload : AsterErrorPayload)
  | internalError (payload : AsterErrorPayload)
  | validationError (payload : AsterErrorPayload)
  | recordNotFound (payload : AsterErrorPayload)
  | fileNotFound (payload : AsterErrorPayload)
  | folderNotFound (payload : AsterErrorPayload)
  | payloadTooLarge (payload : AsterErrorPayload)
  | storagePolicyNotFound (payload : AsterErrorPayload)
  | storageDriverError (payload : AsterErrorPayload)
  | storageQuotaExceeded (payload : AsterErrorPayload)
  | uploadSessionNotFound (payload : AsterErrorPayload)
  | uploadSessionExpired (payload : AsterErrorPayload)
  | chunkUploadFailed (payload : AsterErrorPayload)
  | uploadAssemblyFailed (payload : AsterErrorPayload)
  | uploadAssembling (payload : AsterErrorPayload)
  | preconditionFailed (payload : AsterErrorPayload)
  | conflict (payload : AsterErrorPayload)
  | authForbidden (payload : AsterErrorPayload)
  | resourceLocked (payload : AsterErrorPayload)
  | operationResourceLimitExceeded (payload : AsterErrorPayload)
  | fileTooLarge (payload : AsterErrorPayload)
  | uploadTargetCapacityInsufficient (payload : AsterErrorPayload)
  deriving DecidableEq

namespace AsterError

def payload : AsterError → AsterErrorPayload
  | databaseOperation p | internalError p | validationError p | recordNotFound p | fileNotFound p
  | folderNotFound p | payloadTooLarge p
  | storagePolicyNotFound p | storageDriverError p | storageQuotaExceeded p
  | uploadSessionNotFound p | uploadSessionExpired p | chunkUploadFailed p
  | uploadAssemblyFailed p | uploadAssembling p | preconditionFailed p
  | conflict p | authForbidden p | resourceLocked p | operationResourceLimitExceeded p
  | fileTooLarge p | uploadTargetCapacityInsufficient p => p

def withPayload (f : AsterErrorPayload → AsterErrorPayload) : AsterError → AsterError
  | databaseOperation p => databaseOperation (f p)
  | internalError p => internalError (f p)
  | validationError p => validationError (f p)
  | recordNotFound p => recordNotFound (f p)
  | fileNotFound p => fileNotFound (f p)
  | folderNotFound p => folderNotFound (f p)
  | payloadTooLarge p => payloadTooLarge (f p)
  | storagePolicyNotFound p => storagePolicyNotFound (f p)
  | storageDriverError p => storageDriverError (f p)
  | storageQuotaExceeded p => storageQuotaExceeded (f p)
  | uploadSessionNotFound p => uploadSessionNotFound (f p)
  | uploadSessionExpired p => uploadSessionExpired (f p)
  | chunkUploadFailed p => chunkUploadFailed (f p)
  | uploadAssemblyFailed p => uploadAssemblyFailed (f p)
  | uploadAssembling p => uploadAssembling (f p)
  | preconditionFailed p => preconditionFailed (f p)
  | conflict p => conflict (f p)
  | authForbidden p => authForbidden (f p)
  | resourceLocked p => resourceLocked (f p)
  | operationResourceLimitExceeded p => operationResourceLimitExceeded (f p)
  | fileTooLarge p => fileTooLarge (f p)
  | uploadTargetCapacityInsufficient p => uploadTargetCapacityInsufficient (f p)

def withApiErrorCode (e : AsterError) (code : ApiErrorCode) : AsterError :=
  e.withPayload fun payload => { payload with apiCode := some code }

/-- `From<StorageError>`: a failed driver call always carries its classification. -/
def ofStorage (kind : StorageErrorKind) (message : String) : AsterError :=
  .storageDriverError { message, storageKind := some kind }

/-- `DbError::CommitOutcomeUnknown`: the commit may or may not be durable. -/
def commitOutcomeUnknown (message : String) : AsterError :=
  .databaseOperation { message, databaseCommitOutcomeUncertain := true }

def databaseCommitOutcomeUncertain (e : AsterError) : Bool := e.payload.databaseCommitOutcomeUncertain

end AsterError

/-! ### The classification that completion acts on -/

inductive UploadStorageErrorClass
  | retryable | requiresIntervention | notFound | terminal
  deriving DecidableEq

def classifyStorageErrorKind : StorageErrorKind → UploadStorageErrorClass
  | .transient | .rateLimited => .retryable
  | .auth | .permission | .misconfigured | .unsupported | .precondition => .requiresIntervention
  | .notFound => .notFound
  | .unknown => .terminal

/-- `classify_upload_storage_error`. A driver error without a classification does not occur:
`AsterError.ofStorage` is the only way in. -/
def classifyUploadStorageError : AsterError → UploadStorageErrorClass
  | .recordNotFound _ => .notFound
  | .preconditionFailed _ | .validationError _ => .requiresIntervention
  | .storageDriverError p => (p.storageKind.map classifyStorageErrorKind).getD .terminal
  | _ => .terminal

def uploadCompletionErrorIsRetryable (e : AsterError) : Bool := classifyUploadStorageError e = .retryable

end AsterDrive
