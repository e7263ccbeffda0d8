import AsterDrive.Errors
import AsterDrive.Lib.Result
import AsterDrive.Lib.Table

/-!
# Session — the upload session row, its part rows and the statements that change them

`UploadSession` and `UploadSessionPart` are the two tables behind every upload. The functions below
are the statements of `upload_session_repo` and `upload_session_part_repo`, each on the rows of one
session: a conditional update returns `none` when it affects no row. Times are natural numbers.

`expectedChunkSizeForUpload` and `uploadSessionChunkUnavailableError` are the two helpers that all
chunk paths share.
-/

namespace AsterDrive.Upload

open Table

/-- `UploadSessionKind`: the data plane chosen when the session was created. -/
inductive UploadSessionKind
  | stream | offsetStaging | streamStaging | providerRelayMultipart | providerPresignedSingle
  | providerPresignedMultipart | remoteRelayMultipart | remotePresignedSingle
  | remotePresignedMultipart | providerDirectResumable | providerRelayResumable
  deriving DecidableEq

def UploadSessionKind.asStr : UploadSessionKind → String
  | .stream => "stream"
  | .offsetStaging => "offset_staging"
  | .streamStaging => "stream_staging"
  | .providerRelayMultipart => "provider_relay_multipart"
  | .providerPresignedSingle => "provider_presigned_single"
  | .providerPresignedMultipart => "provider_presigned_multipart"
  | .remoteRelayMultipart => "remote_relay_multipart"
  | .remotePresignedSingle => "remote_presigned_single"
  | .remotePresignedMultipart => "remote_presigned_multipart"
  | .providerDirectResumable => "provider_direct_resumable"
  | .providerRelayResumable => "provider_relay_resumable"

/-- The kinds whose clients send data to the provider directly, never through a chunk PUT. -/
def UploadSessionKind.isPresigned : UploadSessionKind → Bool
  | .providerPresignedSingle | .providerPresignedMultipart | .remotePresignedSingle
  | .remotePresignedMultipart => true
  | _ => false

/-- The kinds whose chunks the server relays into a multipart upload. -/
def UploadSessionKind.isRelayMultipart : UploadSessionKind → Bool
  | .providerRelayMultipart | .remoteRelayMultipart => true
  | _ => false

inductive UploadSessionStatus
  | uploading | assembling | completed | failed | presigned
  deriving DecidableEq

/-- `upload_session::Model`. Placement, owner and display columns are left out. -/
structure UploadSession where
  id : String
  totalSize : ℤ
  chunkSize : ℤ
  totalChunks : ℤ
  receivedCount : ℤ := 0
  status : UploadSessionStatus
  sessionKind : UploadSessionKind
  objectTempKey : Option String := none
  objectMultipartId : Option String := none
  fileId : Option ℕ := none
  expiresAt : ℕ
  updatedAt : ℕ := 0

/-- `upload_session_part::Model` of one session. An empty `etag` marks a claim. -/
structure UploadSessionPart where
  partNumber : ℤ
  etag : String
  size : ℤ
  updatedAt : ℕ := 0

/-- The part rows of one session: the unique index on `(upload_id, part_number)`. -/
abbrev Parts := Table UploadSessionPart.partNumber

/-! ### `upload_session_repo` -/

namespace UploadSession

def incrementReceivedCountIfUploading (s : UploadSession) (now : ℕ) : Option UploadSession :=
  if s.status = .uploading then
    some { s with receivedCount := s.receivedCount + 1, updatedAt := now }
  else none

def advanceProviderRelayReceivedCount (s : UploadSession) (expectedReceivedCount : ℤ) (now : ℕ) :
    Option UploadSession :=
  if s.sessionKind = .providerRelayResumable ∧ s.status = .uploading ∧ s.receivedCount = expectedReceivedCount then
    some { s with receivedCount := s.receivedCount + 1, updatedAt := now }
  else none

def completeIfAssembling (s : UploadSession) (fileId now : ℕ) : Option UploadSession :=
  if s.status = .assembling then
    some { s with status := .completed, fileId := some fileId, updatedAt := now }
  else none

def tryTransitionStatus (s : UploadSession) (expected newStatus : UploadSessionStatus) (now : ℕ) :
    Option UploadSession :=
  if s.status = expected then some { s with status := newStatus, updatedAt := now } else none

def tryFailWithExpiration (s : UploadSession) (expected : UploadSessionStatus)
    (expiresAt now : ℕ) : Option UploadSession :=
  if s.status = expected then some { s with status := .failed, expiresAt, updatedAt := now }
  else none

def tryFailWithExpirationIfLeaseStale (s : UploadSession) (leaseDeadline expiresAt now : ℕ) :
    Option UploadSession :=
  if s.status = .assembling ∧ s.updatedAt ≤ leaseDeadline then
    some { s with status := .failed, expiresAt, updatedAt := now }
  else none

def tryTransitionStatusBeforeExpiry (s : UploadSession) (expected newStatus : UploadSessionStatus)
    (now : ℕ) : Option UploadSession :=
  if s.status = expected ∧ now < s.expiresAt then
    some { s with status := newStatus, updatedAt := now }
  else none

def touchAssembling (s : UploadSession) (now : ℕ) : Option UploadSession :=
  if s.status = .assembling then some { s with updatedAt := now } else none

/-- The filter of `find_expired`. -/
def isExpired (s : UploadSession) (now : ℕ) : Bool := s.expiresAt < now ∧ s.status ≠ .completed

/-- The filter of `delete_if_cancellable`. -/
def isCancellable (s : UploadSession) : Bool := s.status = .uploading ∨ s.status = .presigned ∨ s.status = .failed

end UploadSession

/-! ### `upload_session_part_repo` -/

namespace Parts

/-- `try_claim_part`: insert an empty row, nothing on a conflict. -/
def tryClaimPart (t : Parts) (partNumber : ℤ) (now : ℕ) : Option Parts :=
  t.insertNew { partNumber, etag := "", size := 0, updatedAt := now }

def insertPartIfMissing (t : Parts) (partNumber : ℤ) (etag : String) (size : ℤ) (now : ℕ) :
    Option Parts :=
  t.insertNew { partNumber, etag, size, updatedAt := now }

/-- `upsert_part`: insert, and on a conflict overwrite the existing row. -/
def upsertPart (t : Parts) (partNumber : ℤ) (etag : String) (size : ℤ) (now : ℕ) : Parts :=
  match t.insertNew { partNumber, etag, size, updatedAt := now } with
  | some t' => t'
  | none =>
    t.updateWhere (fun r => r.partNumber = partNumber) (fun r => { r with etag, size, updatedAt := now }) fun _ => rfl

/-- The filter of the statements that only touch a claim. -/
def isClaim (partNumber : ℤ) (r : UploadSessionPart) : Bool := r.partNumber = partNumber ∧ r.etag = ""

def finalizeClaimedPart (t : Parts) (partNumber : ℤ) (etag : String) (size : ℤ) (now : ℕ) :
    Option Parts :=
  if t.affected (isClaim partNumber) = 1 then
    some (t.updateWhere (isClaim partNumber) (fun r => { r with etag, size, updatedAt := now }) fun _ => rfl)
  else none

/-- `touch_claimed_part`, as the one conditional update that changes the row. -/
def touchClaimedPart (t : Parts) (partNumber : ℤ) (now : ℕ) : Parts :=
  t.updateWhere (isClaim partNumber) (fun r => { r with updatedAt := now }) fun _ => rfl

def isStaleClaim (partNumber : ℤ) (staleBefore : ℕ) (r : UploadSessionPart) : Bool :=
  isClaim partNumber r && r.updatedAt < staleBefore

def deleteStaleClaim (t : Parts) (partNumber : ℤ) (staleBefore : ℕ) : Parts :=
  t.deleteWhere (isStaleClaim partNumber staleBefore)

/-- `delete_by_upload_and_part`: by part number only. -/
def deleteByUploadAndPart (t : Parts) (partNumber : ℤ) : Parts := t.deleteWhere fun r => r.partNumber = partNumber

/-- The number of part rows with a non-empty etag (`list_by_upload`, counted). -/
def finalizedCount (t : Parts) : ℤ := t.total fun r => if r.etag = "" then 0 else 1

/-! Each statement has one equation for the row at a given part number and one for the count. -/

section Lemmas

variable {t t' : Parts} {n size : ℤ} {etag : String} {now : ℕ} {r : UploadSessionPart}

theorem get_tryClaimPart (h : t.tryClaimPart n now = some t') (k : ℤ) :
    t'.get k = if n = k then some ⟨n, "", 0, now⟩ else t.get k :=
  get_insertNew h k

theorem tryClaimPart_eq_none : t.tryClaimPart n now = none ↔ ∃ x, t.get n = some x := insertNew_eq_none

theorem finalizedCount_tryClaimPart (h : t.tryClaimPart n now = some t') : t'.finalizedCount = t.finalizedCount := by
  simp [finalizedCount, total_insertNew h]

theorem upsertPart_of_get (h : t.get n = some r) :
    t.upsertPart n etag size now = t.updateWhere (fun r => r.partNumber = n)
      (fun r => { r with etag, size, updatedAt := now }) fun _ => rfl := by
  unfold upsertPart
  rw [insertNew_eq_none.mpr ⟨r, h⟩]

theorem get_upsertPart (h : t.get n = some r) (k : ℤ) : (t.upsertPart n etag size now).get k =
      if n = k then some ⟨n, etag, size, now⟩ else t.get k := by
  rw [upsertPart_of_get h, get_updateWhere]
  split_ifs with hk
  · subst hk
    simp [h, key_of_get h]
  · rcases hx : t.get k with _ | x
    · rfl
    · have hxn : x.partNumber ≠ n := fun hxn => hk (hxn.symm.trans (key_of_get hx))
      simp [hxn]

theorem finalizedCount_upsertPart (h : t.get n = some r) (hr : r.etag = "") (he : etag ≠ "") :
    (t.upsertPart n etag size now).finalizedCount = t.finalizedCount + 1 := by
  rw [upsertPart_of_get h]
  unfold finalizedCount
  rw [total_updateWhere]
  have hone := total_of_get h (g := fun r => if r.etag = "" then (0 : ℤ) else 1)
    (f := fun r => if r.partNumber = n then 1 else if r.etag = "" then 0 else 1)
    fun x _ hx => by simp [hx]
  simp only [hr, key_of_get h, if_true, add_zero] at hone
  simpa [he] using hone

theorem get_deleteByUploadAndPart (t : Parts) (n k : ℤ) :
    (t.deleteByUploadAndPart n).get k = if n = k then none else t.get k := by
  unfold deleteByUploadAndPart
  rw [get_deleteWhere]
  rcases hx : t.get k with _ | x
  · simp
  · have hxk : x.partNumber = k := key_of_get hx
    by_cases hk : n = k
    · simp [hxk, hk]
    · simp [hxk, hk, Ne.symm hk]

theorem finalizedCount_deleteByUploadAndPart (h : t.get n = some r) (hr : r.etag = "") :
    (t.deleteByUploadAndPart n).finalizedCount = t.finalizedCount := by
  unfold deleteByUploadAndPart finalizedCount
  rw [total_deleteWhere]
  refine total_congr fun x hx => ?_
  by_cases hxn : x.partNumber = n
  · -- the only row with this number is the claim
    have hget : t.get n = some x := get_eq_some_iff.mpr ⟨hx, hxn⟩
    obtain rfl := Option.some.inj (hget.symm.trans h)
    simp [hr]
  · simp [hxn]

theorem isClaim_iff : isClaim n r = true ↔ r.partNumber = n ∧ r.etag = "" := by
  simp [isClaim]

theorem get_finalizeClaimedPart (h : t.finalizeClaimedPart n etag size now = some t') :
    (∃ r, t.get n = some r ∧ r.etag = "") ∧ ∀ k, t'.get k = if n = k then some ⟨n, etag, size, now⟩ else t.get k := by
  unfold finalizeClaimedPart at h
  split_ifs at h with haff
  cases h
  obtain ⟨r, hr, hclaim⟩ : ∃ r ∈ t.rows, isClaim n r = true := by
    rw [← List.countP_pos_iff]
    unfold affected at haff
    omega
  obtain ⟨hn, hr0⟩ := (isClaim_iff).mp hclaim
  have hget : t.get n = some r := get_eq_some_iff.mpr ⟨hr, hn⟩
  refine ⟨⟨r, hget, hr0⟩, fun k => ?_⟩
  rw [get_updateWhere]
  split_ifs with hk
  · subst hk
    simp [hget, hclaim, hn]
  · rcases hx : t.get k with _ | x
    · rfl
    · have hxn : isClaim n x = false := by
        rw [Bool.eq_false_iff, Ne, isClaim_iff]
        exact fun hx' => hk (hx'.1.symm.trans (key_of_get hx))
      simp [hxn]

/-- `t'` has the finished rows of `t` and no row that `t` has not. -/
structure Keeps (t t' : Parts) : Prop where
  back : ∀ k r', t'.get k = some r' → ∃ r, t.get k = some r ∧ r.etag = r'.etag ∧ r.size = r'.size
  forth : ∀ k r, t.get k = some r → r.etag ≠ "" → ∃ r', t'.get k = some r' ∧ r'.etag = r.etag ∧ r'.size = r.size

theorem keeps_touchClaimedPart (t : Parts) (n : ℤ) (now : ℕ) : Keeps t (t.touchClaimedPart n now) := by
  unfold touchClaimedPart
  refine ⟨fun k r' h => ?_, fun k r h _ => ?_⟩
  · rw [get_updateWhere] at h
    obtain ⟨r, hr, rfl⟩ := Option.map_eq_some_iff.mp h
    refine ⟨r, hr, ?_⟩
    split_ifs <;> exact ⟨rfl, rfl⟩
  · rw [get_updateWhere, h]
    refine ⟨_, rfl, ?_⟩
    dsimp only
    split_ifs <;> exact ⟨rfl, rfl⟩

theorem keeps_deleteWhere (t : Parts) {p : UploadSessionPart → Bool}
    (hp : ∀ k r, t.get k = some r → p r = true → r.etag = "") : Keeps t (t.deleteWhere p) := by
  refine ⟨fun k r' h => ?_, fun k r h hne => ?_⟩
  · rw [get_deleteWhere] at h
    exact ⟨r', (Option.filter_eq_some_iff.mp h).1, rfl, rfl⟩
  · refine ⟨r, ?_, rfl, rfl⟩
    rw [get_deleteWhere, h, Option.filter_some, if_pos]
    rw [Bool.not_eq_true', Bool.eq_false_iff]
    exact fun hpr => hne (hp k r h hpr)

theorem keeps_deleteStaleClaim (t : Parts) (n : ℤ) (staleBefore : ℕ) : Keeps t (t.deleteStaleClaim n staleBefore) := by
  refine keeps_deleteWhere t fun k r _ hr => ?_
  unfold isStaleClaim at hr
  rw [Bool.and_eq_true] at hr
  exact ((isClaim_iff).mp hr.1).2

end Lemmas

end Parts

/-! ### Shared helpers of the chunk paths -/

def uploadSessionChunkUnavailableError (s : UploadSession) : AsterError :=
  match s.status with
  | .failed => .uploadSessionExpired { message := "session was canceled or failed" }
  | .assembling =>
    .uploadSessionExpired { message := "session is assembling and no longer accepts chunks" }
  | .completed => .uploadSessionExpired { message := "session already completed" }
  | .presigned => .validationError
      { message := "session does not accept relay chunk uploads"
        apiCode := some .uploadChunkTransportMismatch }
  | .uploading => .uploadSessionNotFound { message := "session " ++ s.id }

def expectedChunkSizeForUpload (s : UploadSession) (chunkNumber : ℤ) : Except AsterError ℤ :=
  if s.totalChunks ≤ 0 ∨ s.chunkSize ≤ 0 then
    .error (.chunkUploadFailed
      { message := "invalid upload session chunk metadata: total_chunks=" ++ toString s.totalChunks
          ++ ", chunk_size=" ++ toString s.chunkSize
        apiCode := some .uploadChunkSessionInvalid })
  else if chunkNumber < s.totalChunks - 1 then .ok s.chunkSize
  else
    let preceding := s.chunkSize * (s.totalChunks - 1)
    let expected := s.totalSize - preceding
    if expected ≤ 0 then
      .error (.chunkUploadFailed
        { message := "invalid final chunk size for upload " ++ s.id ++ ": total_size="
            ++ toString s.totalSize ++ ", preceding=" ++ toString preceding
          apiCode := some .uploadChunkSessionInvalid })
    else .ok expected

def uploadSessionStatusLabel : UploadSessionStatus → String
  | .uploading => "uploading"
  | .assembling => "assembling"
  | .completed => "completed"
  | .failed => "failed"
  | .presigned => "presigned"

def uploadStatusConflict (actual expected : UploadSessionStatus) : AsterError :=
  .conflict
    { message := "session status is '" ++ uploadSessionStatusLabel actual ++ "', expected '"
        ++ uploadSessionStatusLabel expected ++ "'"
      apiCode := some .uploadStatusConflict }

/-- `transition_upload_session_to_assembling`; `now` is taken before the statement runs. -/
def transitionUploadSessionToAssembling (s : UploadSession) (expected : UploadSessionStatus)
    (now : ℕ) : Except AsterError UploadSession :=
  match s.tryTransitionStatusBeforeExpiry expected .assembling now with
  | some s' => .ok s'
  | none =>
    if s.status = expected ∧ s.expiresAt ≤ now then
      .error (.uploadSessionExpired { message := "session expired" })
    else .error (uploadStatusConflict s.status expected)

/-! The geometry of a session: where its chunks lie and how long they are. -/

/-- The columns that no statement changes. -/
structure SameGeometry (u v : UploadSession) : Prop where
  totalSize : u.totalSize = v.totalSize
  chunkSize : u.chunkSize = v.chunkSize
  totalChunks : u.totalChunks = v.totalChunks
  kind : u.sessionKind = v.sessionKind

theorem expectedChunkSize_ok_iff {u : UploadSession} {k size : ℤ} : expectedChunkSizeForUpload u k = .ok size ↔
      0 < u.totalChunks ∧ 0 < u.chunkSize ∧ (k < u.totalChunks - 1 ∧ size = u.chunkSize ∨
          u.totalChunks - 1 ≤ k ∧ size = u.totalSize - u.chunkSize * (u.totalChunks - 1) ∧ 0 < size) := by
  unfold expectedChunkSizeForUpload
  dsimp only
  split_ifs with h1 h2 h3
  · simp only [false_iff]
    omega
  · simp only [Except.ok.injEq]
    omega
  · simp only [false_iff]
    omega
  · simp only [Except.ok.injEq]
    omega

theorem SameGeometry.expected {u v : UploadSession} (h : SameGeometry u v) {k size : ℤ}
    (hk : expectedChunkSizeForUpload u k = .ok size) :
    expectedChunkSizeForUpload v k = .ok size := by
  rw [expectedChunkSize_ok_iff] at hk ⊢
  rw [← h.totalChunks, ← h.chunkSize, ← h.totalSize]
  exact hk

theorem SameGeometry.symm {u v : UploadSession} (h : SameGeometry u v) : SameGeometry v u :=
  ⟨h.totalSize.symm, h.chunkSize.symm, h.totalChunks.symm, h.kind.symm⟩

theorem SameGeometry.trans {u v w : UploadSession} (h₁ : SameGeometry u v) (h₂ : SameGeometry v w) : SameGeometry u w :=
  ⟨h₁.totalSize.trans h₂.totalSize, h₁.chunkSize.trans h₂.chunkSize,
    h₁.totalChunks.trans h₂.totalChunks, h₁.kind.trans h₂.kind⟩

/-- The checks that `upload_chunk_impl` and `upload_chunk_payload_impl` make on the loaded session
before they branch on its kind; the result is the expected size of the chunk. -/
def checkChunkRequest (s : UploadSession) (chunkNumber : ℤ) (now : ℕ) : Except AsterError ℤ :=
  if s.status ≠ .uploading then .error (uploadSessionChunkUnavailableError s)
  else if s.expiresAt < now then .error (.uploadSessionExpired { message := "session expired" })
  else if chunkNumber < 0 ∨ s.totalChunks ≤ chunkNumber then
    .error (.validationError
      { message := "chunk_number " ++ toString chunkNumber ++ " out of range [0, " ++ toString s.totalChunks ++ ")"
        apiCode := some .uploadChunkNumberOutOfRange })
  else do
    let expectedSize ← expectedChunkSizeForUpload s chunkNumber
    if s.sessionKind.isPresigned then
      .error (.uploadAssemblyFailed
        { message := "presigned upload sessions do not accept server chunk PUT"
          apiCode := some .uploadSessionCorrupted })
    else .ok expectedSize

def chunkSizeMismatch (chunkNumber expected actual : ℤ) : AsterError :=
  .chunkUploadFailed
    { message := "chunk " ++ toString chunkNumber ++ " size mismatch: expected "
        ++ toString expected ++ ", got " ++ toString actual
      apiCode := some .uploadChunkSizeMismatch }

/-- The length check of the buffered variant; a streamed body has no length yet. -/
def checkBodyLength (streamed : Bool) (chunkNumber expectedSize dataLen : ℤ) :
    Except AsterError Unit :=
  if streamed ∨ dataLen = expectedSize then .ok ()
  else .error (chunkSizeMismatch chunkNumber expectedSize dataLen)

theorem checkChunkRequest_ok {s : UploadSession} {chunkNumber size : ℤ} {now : ℕ}
    (h : checkChunkRequest s chunkNumber now = .ok size) :
    0 ≤ chunkNumber ∧ chunkNumber < s.totalChunks ∧ expectedChunkSizeForUpload s chunkNumber = .ok size := by
  unfold checkChunkRequest at h
  split_ifs at h with hstatus hexpired hrange hpresigned
  · obtain ⟨_, _, h⟩ := bind_ok h
    simp at h
  · obtain ⟨size', hsize, h⟩ := bind_ok h
    cases h
    exact ⟨by omega, by omega, hsize⟩

end AsterDrive.Upload
