import AsterDrive.Lib.Interleave
import AsterDrive.Upload.Session
import Mathlib.Tactic.Ring
import Mathlib.Algebra.BigOperators.Group.Finset.Basic

/-!
# ProviderRelay — fragments relayed into a provider's resumable upload

`upload_bytes`, `upload_payload` and `reconcile_progress` of provider relay sessions, one database
transaction or provider call at a time. The provider keeps one growing prefix of the file: a
fragment is accepted only at the next expected offset, possibly long after its sender has seen an
error or a timeout (`deliver`), and every answer it gives was true at some moment of the call.

Receipts are written by `finalizeReceipt` only, in order, each after the provider is known to hold
the end of its range. The one statement that can undo that is `release_claim`: it deletes by part
number and does not ask whether the row is still a claim. `release_deletes_receipt` is the run in
which it is not; `receipts_lockstep` is the lockstep of receipts and provider in every run whose
releases find no receipt.
-/

namespace AsterDrive.Upload.ProviderRelay

open AsterDrive.Interleave List Option

/-! ### The model -/

def providerRangeReceipt : String := "provider-range-v1"

theorem providerRangeReceipt_ne : providerRangeReceipt ≠ "" := by decide

/-- `CLAIM_STALE_AFTER`, in seconds. -/
def claimStaleAfter : ℕ := 120

def corrupted (message : String) : AsterError :=
  .uploadAssemblyFailed { message, apiCode := some .uploadSessionCorrupted }

def outOfOrderError (chunkNumber expected : ℤ) : AsterError :=
  .chunkUploadFailed
    { message := "provider relay chunk " ++ toString chunkNumber
        ++ " is out of order; expected chunk " ++ toString expected
      apiCode := some .uploadChunkSessionInvalid }

def chunkPendingError (chunkNumber : ℤ) : AsterError :=
  .uploadAssembling
    { message := "provider relay chunk " ++ toString chunkNumber ++ " is already being uploaded"
      apiCode := some .uploadChunkPending }

/-- One PUT of one chunk. `bodyError` is set when the body of a streamed request breaks off while
its fragment is under way. -/
structure Job where
  chunkNumber : ℤ
  expectedSize : ℤ
  start : ℤ
  bodyError : Option AsterError := none

/-- `chunk_end_exclusive`. -/
def Job.chunkEnd (j : Job) : ℤ := j.start + j.expectedSize

def Job.partNumber (j : Job) : ℤ := j.chunkNumber + 1

def chunkStart (u : UploadSession) (chunkNumber : ℤ) : ℤ := chunkNumber * u.chunkSize

/-- The job for a chunk, when the session's geometry gives it a size. -/
def mkJob (u : UploadSession) (chunkNumber : ℤ) : Except AsterError Job := do
  let expectedSize ← expectedChunkSizeForUpload u chunkNumber
  return { chunkNumber, expectedSize, start := chunkStart u chunkNumber }

structure PutRequest where
  chunkNumber : ℤ
  dataLen : ℤ
  streamed : Bool

inductive Answer
  | chunk (receivedCount totalChunks : ℤ)
  | progress (receivedCount : ℤ)

/-- Where a worker stands: the call it makes next. -/
inductive Pc
  | idle
  | claiming (job : Job)
  | conflictQuery (job : Job)
  | conflictFinalize (job : Job)
  | takeover (job : Job)
  | send (job : Job)
  | uploading (job : Job)
  | touch (job : Job)
  | errorQuery (job : Job) (error : AsterError)
  | release (job : Job) (error : AsterError)
  | finalize (job : Job)
  | respond (job : Job)
  | reconcileQuery
  | reconcile (nextOffset : ℤ)
  | reconcileFinalize (nextOffset : ℤ) (job : Job)
  | done (result : Except AsterError Answer)

/-- A fragment on its way to the provider. -/
structure Fragment where
  start : ℤ
  size : ℤ

structure State where
  session : Option UploadSession
  parts : Parts
  offset : ℤ := 0
  inflight : List Fragment := []

/-- What is chosen for a worker. `lost`: the transaction commits and the reply is lost.
`answered next`: the provider reports `next` for a fragment it has taken. The last five are moves
of the provider and of the requests around the session. -/
inductive Act
  | put (req : PutRequest) (now : ℕ)
  | reconcileProgress
  | succeed (now : ℕ)
  | fail (error : AsterError)
  | lost (now : ℕ) (error : AsterError)
  | heartbeat
  | answered (next : ℤ)
  | bodyFails (error : AsterError)
  | crash
  | deliver (index : ℕ)
  | drop (index : ℕ)
  | setStatus (status : UploadSessionStatus)
  | deleteSession

def Act.isCrash : Act → Bool
  | .crash => true
  | _ => false

def sessionNotFound : AsterError := .uploadSessionNotFound { message := "session" }

/-- `validate_completed_receipt`. -/
def validateCompletedReceipt (t : Parts) (job : Job) : Except AsterError Unit :=
  match t.get job.partNumber with
  | none => .error (corrupted "provider relay receipt is missing")
  | some receipt =>
    if receipt.etag ≠ providerRangeReceipt ∨ receipt.size ≠ job.expectedSize then
      .error (corrupted "provider relay receipt is invalid")
    else .ok ()

/-- Turn the claim into a receipt, or accept the receipt that is there. -/
def writeReceipt (t : Parts) (job : Job) (now : ℕ) : Except AsterError Parts :=
  match t.finalizeClaimedPart job.partNumber providerRangeReceipt job.expectedSize now with
  | some parts => .ok parts
  | none => do
    validateCompletedReceipt t job
    return t

/-- `finalize_receipt`, as one transaction: an error leaves no effect. -/
def finalizeReceipt (s : State) (job : Job) (now : ℕ) : Except AsterError State :=
  match s.session with
  | none => .error sessionNotFound
  | some current =>
    if job.chunkNumber < current.receivedCount then do
      validateCompletedReceipt s.parts job
      return s
    else if current.receivedCount ≠ job.chunkNumber then
      .error (outOfOrderError job.chunkNumber current.receivedCount)
    else do
      let parts ← writeReceipt s.parts job now
      match current.advanceProviderRelayReceivedCount job.chunkNumber now with
      | none => .error (corrupted "failed to advance provider relay upload progress")
      | some current' => return { s with session := some current', parts }

inductive ClaimResult
  | completed | claimed | taken

/-- The transaction at the head of the loop in `claim_or_reconcile`. -/
def claimTxn (s : State) (job : Job) (now : ℕ) : Except AsterError (State × ClaimResult) :=
  match s.session with
  | none => .error sessionNotFound
  | some current =>
    if current.status ≠ .uploading then .error (uploadSessionChunkUnavailableError current)
    else if job.chunkNumber < current.receivedCount then do
      validateCompletedReceipt s.parts job
      return (s, .completed)
    else if current.receivedCount < job.chunkNumber then
      .error (outOfOrderError job.chunkNumber current.receivedCount)
    else
      match s.parts.tryClaimPart job.partNumber now with
      | some parts => return ({ s with parts }, .claimed)
      | none => return (s, .taken)

def loadContext (u : UploadSession) : Except AsterError String :=
  match u.objectTempKey with
  | none => .error (corrupted "provider relay resumable session is missing object_temp_key")
  | some tempKey => .ok tempKey

/-- Unlike `checkChunkRequest`, it also refuses the very second of expiry. -/
def validateChunkRequest (u : UploadSession) (chunkNumber : ℤ) (now : ℕ) :
    Except AsterError Unit :=
  if u.status ≠ .uploading then .error (uploadSessionChunkUnavailableError u)
  else if u.expiresAt ≤ now then .error (.uploadSessionExpired { message := "session expired" })
  else if chunkNumber < 0 ∨ u.totalChunks ≤ chunkNumber then
    .error (.validationError
      { message := "chunk_number " ++ toString chunkNumber ++ " out of range [0, " ++ toString u.totalChunks ++ ")"
        apiCode := some .uploadChunkNumberOutOfRange })
  else .ok ()

/-- Everything before `claim_or_reconcile`, on the loaded session row. -/
def startPut (u : UploadSession) (req : PutRequest) (now : ℕ) : Except AsterError Job := do
  let expectedSize ← checkChunkRequest u req.chunkNumber now
  let _ ← checkBodyLength req.streamed req.chunkNumber expectedSize req.dataLen
  let _ ← loadContext u
  let _ ← validateChunkRequest u req.chunkNumber now
  mkJob u req.chunkNumber

/-- The loop body of `reconcile_progress_with_context`, after `find_by_id`. -/
def reconcileNext (session : Option UploadSession) (nextOffset : ℤ) : Pc :=
  match session with
  | none => .done (.error sessionNotFound)
  | some current =>
    if current.totalChunks ≤ current.receivedCount then .done (.ok (.progress current.totalChunks))
    else
      match mkJob current current.receivedCount with
      | .error e => .done (.error e)
      | .ok job =>
        if nextOffset < job.chunkEnd then .done (.ok (.progress current.receivedCount))
        else .reconcileFinalize nextOffset job

/-- `response`, or the error of the request body when there was one. -/
def answer (session : Option UploadSession) (job : Job) : Except AsterError Answer :=
  match job.bodyError, session with
  | some e, _ => .error e
  | none, none => .error sessionNotFound
  | none, some u => .ok (.chunk u.receivedCount u.totalChunks)

/-- A transaction that runs `finalizeReceipt`, in its three outcomes. -/
def finalizeStep (a : Act) (s : State) (job : Job) (next : Pc) : Option (State × Pc) :=
  match a with
  | .succeed now =>
    match finalizeReceipt s job now with
    | .error e => some (s, .done (.error e))
    | .ok s' => some (s', next)
  | .lost now error =>
    match finalizeReceipt s job now with
    | .error e => some (s, .done (.error e))
    | .ok s' => some (s', .done (.error error))
  | .fail error => some (s, .done (.error error))
  | _ => none

def stepIdle (a : Act) (s : State) : Option (State × Pc) :=
  match a with
  | .put req now =>
    match s.session with
    | none => some (s, .done (.error sessionNotFound))
    | some u =>
      match startPut u req now with
      | .error e => some (s, .done (.error e))
      | .ok job => some (s, .claiming job)
  | .reconcileProgress => some (s, .reconcileQuery)
  | .deliver index =>
    match s.inflight[index]? with
    | none => none
    | some f =>
      if f.start = s.offset then
        some ({ s with offset := s.offset + f.size, inflight := s.inflight.eraseIdx index }, .idle)
      else none
  | .drop index => some ({ s with inflight := s.inflight.eraseIdx index }, .idle)
  | .setStatus status => some ({ s with session := s.session.map ({ · with status }) }, .idle)
  | .deleteSession => some ({ s with session := none, parts := Table.empty }, .idle)
  | _ => none

/-- `claim_or_reconcile`: its transaction, the provider query after a conflict, the takeover of a
stale claim. -/
def stepClaiming (a : Act) (s : State) (job : Job) : Option (State × Pc) :=
  match a with
  | .succeed now =>
    match claimTxn s job now with
    | .error e => some (s, .done (.error e))
    | .ok (s', .completed) => some (s', .respond job)
    | .ok (s', .claimed) => some (s', .send job)
    | .ok (s', .taken) => some (s', .conflictQuery job)
  | .lost now error =>
    match claimTxn s job now with
    | .error e => some (s, .done (.error e))
    | .ok (s', _) => some (s', .done (.error error))
  | .fail error => some (s, .done (.error error))
  | _ => none

def stepConflictQuery (a : Act) (s : State) (job : Job) : Option (State × Pc) :=
  match a with
  | .succeed _ =>
    if job.chunkEnd ≤ s.offset then some (s, .conflictFinalize job)
    else if s.offset ≠ job.start then
      some (s, .done (.error (corrupted ("provider next offset " ++ toString s.offset
        ++ " does not match claimed range " ++ toString job.start ++ "-"
        ++ toString job.chunkEnd))))
    else some (s, .takeover job)
  | .fail error => some (s, .done (.error error))
  | _ => none

def stepTakeover (a : Act) (s : State) (job : Job) : Option (State × Pc) :=
  match a with
  | .succeed now =>
    if s.parts.affected (Parts.isStaleClaim job.partNumber (now - claimStaleAfter)) = 1 then
      some ({ s with parts := s.parts.deleteStaleClaim job.partNumber (now - claimStaleAfter) }, .claiming job)
    else some (s, .done (.error (chunkPendingError job.chunkNumber)))
  | .fail error => some (s, .done (.error error))
  | _ => none

def stepSend (a : Act) (s : State) (job : Job) : Option (State × Pc) :=
  match a with
  | .succeed _ =>
    some ({ s with inflight := ⟨job.start, job.expectedSize⟩ :: s.inflight }, .uploading job)
  | .fail error => some (s, .errorQuery job error)
  | _ => none

/-- `upload_with_claim_heartbeat` while the fragment is under way, then the first half of
`finish_fragment_result`. -/
def stepUploading (a : Act) (s : State) (job : Job) : Option (State × Pc) :=
  match a with
  | .heartbeat =>
    if s.parts.affected (Parts.isClaim job.partNumber) = 0 then
      some (s, .errorQuery job (corrupted "provider relay claim disappeared while fragment was uploading"))
    else some (s, .touch job)
  | .answered next =>
    if s.offset < next then none
    else if next ≠ job.chunkEnd then
      some (s, .done (.error (corrupted ("provider accepted range ended at " ++ toString next
        ++ ", expected " ++ toString job.chunkEnd))))
    else some (s, .finalize job)
  | .bodyFails error => some (s, .uploading { job with bodyError := some error })
  | .fail error => some (s, .errorQuery job error)
  | _ => none

def stepTouch (a : Act) (s : State) (job : Job) : Option (State × Pc) :=
  match a with
  | .succeed now =>
    some ({ s with parts := s.parts.touchClaimedPart job.partNumber now }, .uploading job)
  | .fail error => some (s, .errorQuery job error)
  | _ => none

def stepErrorQuery (a : Act) (s : State) (job : Job) (error : AsterError) : Option (State × Pc) :=
  match a with
  | .succeed _ =>
    if job.chunkEnd ≤ s.offset then some (s, .finalize job)
    else if s.offset = job.start then some (s, .release job error)
    else some (s, .done (.error (corrupted ("provider returned inconsistent next offset "
      ++ toString s.offset ++ " after fragment failure"))))
  -- a failed query is only logged; the caller sees the upload error
  | .fail _ => some (s, .done (.error error))
  | _ => none

/-- `release_claim`: by part number, whatever the row has become. -/
def stepRelease (a : Act) (s : State) (job : Job) (error : AsterError) : Option (State × Pc) :=
  match a with
  | .succeed _ =>
    some ({ s with parts := s.parts.deleteByUploadAndPart job.partNumber }, .done (.error error))
  | .fail _ => some (s, .done (.error error))
  | _ => none

/-- A read that leads to the given place. -/
def stepRead (a : Act) (s : State) (next : Pc) : Option (State × Pc) :=
  match a with
  | .succeed _ => some (s, next)
  | .fail error => some (s, .done (.error error))
  | _ => none

/-- One step of one worker; it may die at any point. -/
def step (a : Act) (s : State) (p : Pc) : Option (State × Pc) :=
  if a.isCrash then some (s, .idle) else
  match p with
  | .idle => stepIdle a s
  | .claiming job => stepClaiming a s job
  | .conflictQuery job => stepConflictQuery a s job
  | .conflictFinalize job => finalizeStep a s job (.respond job)
  | .takeover job => stepTakeover a s job
  | .send job => stepSend a s job
  | .uploading job => stepUploading a s job
  | .touch job => stepTouch a s job
  | .errorQuery job error => stepErrorQuery a s job error
  | .release job error => stepRelease a s job error
  | .finalize job => finalizeStep a s job (.respond job)
  | .respond job => stepRead a s (.done (answer s.session job))
  | .reconcileQuery => stepRead a s (.reconcile s.offset)
  | .reconcile nextOffset => stepRead a s (reconcileNext s.session nextOffset)
  | .reconcileFinalize nextOffset job => finalizeStep a s job (.reconcile nextOffset)
  | .done _ => none

def providerRelay : System State Pc Act := ⟨step⟩

/-- A provider relay session as `init` leaves it. -/
structure ProviderSession where
  row : UploadSession
  kind : row.sessionKind = .providerRelayResumable
  fresh : row.receivedCount = 0

def start (u : ProviderSession) : Config State Pc where
  shared := { session := some u.row, parts := Table.empty }
  proc _ := .idle

/-! ### The property -/

/-- The number of bytes in the first `count` chunks. -/
def chunkBytes (u : UploadSession) (count : ℕ) : ℤ :=
  ∑ i ∈ Finset.range count, (expectedChunkSizeForUpload u i).toOption.getD 0

/-- **Lockstep** of the session row `u` with its part rows and the provider's offset. -/
structure Lockstep (u : UploadSession) (parts : Parts) (offset : ℤ) : Prop where
  recorded : ∀ n, (∃ r, parts.get n = some r ∧ r.etag ≠ "") ↔ 1 ≤ n ∧ n ≤ u.receivedCount
  receipt : ∀ n r, parts.get n = some r → r.etag ≠ "" →
    r.etag = providerRangeReceipt ∧ expectedChunkSizeForUpload u (n - 1) = .ok r.size
  claim : ∀ n r, parts.get n = some r → r.etag = "" → n = u.receivedCount + 1
  bytes : chunkBytes u u.receivedCount.toNat ≤ offset

/-- Each release finds no finished receipt under its part number. -/
def ReleasesNoReceipt (s : State) (p : Pc) (_ : Act) : Prop :=
  match p with
  | .release job _ => (s.parts.get job.partNumber).all (fun r => r.etag = "") = true
  | _ => True

instance (s : State) (p : Pc) (a : Act) : Decidable (ReleasesNoReceipt s p a) := by
  unfold ReleasesNoReceipt
  split <;> infer_instance

/-! ### Geometry -/

/-- The job is one of the session's chunks, with its size and its place in the file. -/
structure Fits (u : UploadSession) (j : Job) : Prop where
  nonneg : 0 ≤ j.chunkNumber
  inRange : j.chunkNumber < u.totalChunks
  size : expectedChunkSizeForUpload u j.chunkNumber = .ok j.expectedSize
  start : j.start = j.chunkNumber * u.chunkSize

variable {u : UploadSession} {j : Job}

theorem Fits.withBodyError (h : Fits u j) (error : AsterError) : Fits u { j with bodyError := some error } :=
  ⟨h.nonneg, h.inRange, h.size, h.start⟩

variable {v : UploadSession}

theorem Fits.of_mkJob {k : ℤ} (hg : SameGeometry u v)
    (h0 : 0 ≤ k) (hk : k < u.totalChunks) (h : mkJob u k = .ok j) : Fits v j := by
  obtain ⟨size, hs, h⟩ := bind_ok h
  cases h
  exact ⟨h0, hg.totalChunks ▸ hk, hg.expected hs, by rw [← hg.chunkSize, chunkStart]⟩

theorem chunkBytes_full (hc : 0 < u.chunkSize) (k : ℕ)
    (hk : (k : ℤ) ≤ u.totalChunks - 1) : chunkBytes u k = k * u.chunkSize := by
  induction k with
  | zero => simp [chunkBytes]
  | succ k ih =>
    have hsize : expectedChunkSizeForUpload u k = .ok u.chunkSize := by
      rw [expectedChunkSize_ok_iff]
      exact ⟨by omega, hc, .inl ⟨by omega, rfl⟩⟩
    unfold chunkBytes at ih ⊢
    rw [Finset.sum_range_succ, ih (by omega), hsize]
    simp only [Except.toOption, getD_some]
    push_cast
    ring

theorem Fits.chunkBytes (h : Fits u j) : chunkBytes u (j.chunkNumber + 1).toNat = j.chunkEnd := by
  obtain ⟨k, hk⟩ := Int.eq_ofNat_of_zero_le h.nonneg
  have hc : 0 < u.chunkSize := (expectedChunkSize_ok_iff.mp h.size).2.1
  have hr := h.inRange
  have hsize := h.size
  rw [hk] at hr hsize
  have hsucc : (j.chunkNumber + 1).toNat = k + 1 := by omega
  unfold Job.chunkEnd
  rw [hsucc, ProviderRelay.chunkBytes, Finset.sum_range_succ, ← ProviderRelay.chunkBytes,
    chunkBytes_full hc k (by omega), hsize, h.start, hk]
  simp [Except.toOption]

/-! ### What a step can do -/

def Pc.job : Pc → Option Job
  | .claiming j | .conflictQuery j | .conflictFinalize j | .takeover j | .send j | .uploading j
  | .touch j | .errorQuery j _ | .release j _ | .finalize j | .respond j
  | .reconcileFinalize _ j => some j
  | _ => none

/-- The job whose range the worker knows to be stored. -/
def Pc.assured : Pc → Option Job
  | .conflictFinalize j | .finalize j | .reconcileFinalize _ j => some j
  | _ => none

/-- An offset that the provider has reported to the worker. -/
def Pc.seen : Pc → Option ℤ
  | .reconcile n | .reconcileFinalize n _ => some n
  | _ => none

/-- What a worker knows: its job is a chunk of the session, the provider is at least as far as the
worker has been told. -/
structure Role (u : UploadSession) (offset : ℤ) (p : Pc) : Prop where
  job : ∀ j, p.job = some j → Fits u j
  assured : ∀ j, p.assured = some j → j.chunkEnd ≤ offset
  seen : ∀ n, p.seen = some n → n ≤ offset

variable {offset : ℤ}

theorem Role.mono {offset' : ℤ} {p : Pc} (h : Role u offset p) (hle : offset ≤ offset') : Role u offset' p :=
  ⟨h.job, fun j hj => (h.assured j hj).trans hle, fun n hn => (h.seen n hn).trans hle⟩

theorem Role.of_none {p : Pc} (hp : p.job = none) (ha : p.assured = none) (hs : p.seen = none) : Role u offset p :=
  ⟨fun _ h => by simp [hp] at h, fun _ h => by simp [ha] at h, fun _ h => by simp [hs] at h⟩

theorem Role.done {r : Except AsterError Answer} : Role u offset (.done r) := .of_none rfl rfl rfl

theorem Role.of_job {p : Pc} (hj : Fits u j) (hp : p.job = some j) (ha : p.assured = none)
    (hs : p.seen = none) : Role u offset p :=
  ⟨fun i hi => by rwa [← some.inj (hp.symm.trans hi)], fun i hi => by simp [ha] at hi, fun n hn => by simp [hs] at hn⟩

theorem Role.of_end {p : Pc} (hj : Fits u j) (hend : j.chunkEnd ≤ offset) (hp : p.job = some j)
    (ha : p.assured = some j) (hs : p.seen = none) : Role u offset p :=
  ⟨fun i hi => by rwa [← some.inj (hp.symm.trans hi)], fun i hi => by rwa [← some.inj (ha.symm.trans hi)],
    fun n hn => by simp [hs] at hn⟩

/-- The steps, as far as the session, its rows and the provider are concerned. -/
inductive Moves (u₀ : UploadSession) (s : State) : State → Prop
  | quiet (inflight : List Fragment) (h : ∀ f ∈ inflight, 0 ≤ f.size) : Moves u₀ s { s with inflight }
  | accepted (f : Fragment) (inflight : List Fragment) (hf : f ∈ s.inflight) (h : ∀ g ∈ inflight, 0 ≤ g.size) :
      Moves u₀ s { s with offset := s.offset + f.size, inflight }
  | status (status : UploadSessionStatus) : Moves u₀ s { s with session := s.session.map ({ · with status }) }
  | deleted : Moves u₀ s { s with session := none, parts := Table.empty }
  | kept (parts : Parts) (h : Parts.Keeps s.parts parts) : Moves u₀ s { s with parts }
  | claimed (u : UploadSession) (now : ℕ) (parts : Parts) (hu : s.session = some u)
      (h : s.parts.tryClaimPart (u.receivedCount + 1) now = some parts) :
      Moves u₀ s { s with parts }
  | finalized (job : Job) (now : ℕ) (s' : State) (hj : Fits u₀ job)
      (hend : job.chunkEnd ≤ s.offset) (h : finalizeReceipt s job now = .ok s') : Moves u₀ s s'

open Moves

/-- The state invariant: the geometry never changes, fragments have a size, and the rows are in
lockstep with the provider. -/
structure Inv (u₀ : UploadSession) (s : State) : Prop where
  nonneg : ∀ u, s.session = some u → 0 ≤ u.receivedCount
  geometry : ∀ u, s.session = some u → SameGeometry u u₀
  inflight : ∀ f ∈ s.inflight, 0 ≤ f.size
  lockstep : ∀ u, s.session = some u → Lockstep u s.parts s.offset

section Steps

variable {u₀ : UploadSession} {a : Act} {s s' : State} {p' : Pc} {job : Job}

theorem Moves.refl (hI : Inv u₀ s) : Moves u₀ s s := .quiet s.inflight hI.inflight

theorem Moves.ended {r : Except AsterError Answer} (hI : Inv u₀ s) (h : some (s, Pc.done r) = some (s', p')) :
    Moves u₀ s s' ∧ Role u₀ s.offset p' := by
  cases h
  exact ⟨.refl hI, .done⟩

variable {now : ℕ}

theorem startPut_fits {u : UploadSession} (hg : SameGeometry u u₀) {req : PutRequest}
    (h : startPut u req now = .ok job) : Fits u₀ job := by
  obtain ⟨size, hcheck, h⟩ := bind_ok h
  obtain ⟨-, -, h⟩ := bind_ok h
  obtain ⟨-, -, h⟩ := bind_ok h
  obtain ⟨-, -, h⟩ := bind_ok h
  obtain ⟨h0, hk, -⟩ := checkChunkRequest_ok hcheck
  exact .of_mkJob hg h0 hk h

theorem reconcileNext_role (hI : Inv u₀ s) {n : ℤ} (hn : n ≤ s.offset) :
    Role u₀ s.offset (reconcileNext s.session n) := by
  unfold reconcileNext
  rcases hu : s.session with _ | u
  · exact .done
  · dsimp only
    split_ifs with htotal
    · exact .done
    · rcases hj : mkJob u u.receivedCount with e | j
      · exact .done
      · dsimp only
        split_ifs with hend
        · exact .done
        · have hfit : Fits u₀ j := .of_mkJob (hI.geometry u hu) (hI.nonneg u hu) (by omega) hj
          refine ⟨fun i hi => ?_, fun i hi => ?_, fun m hm => ?_⟩
          · cases hi
            exact hfit
          · cases hi
            omega
          · cases hm
            exact hn

theorem validateCompletedReceipt_ok {t : Parts} {r : Unit} (h : validateCompletedReceipt t job = .ok r) :
    ∃ receipt, t.get job.partNumber = some receipt ∧ receipt.etag = providerRangeReceipt := by
  unfold validateCompletedReceipt at h
  split at h
  · simp at h
  · rename_i receipt hget
    split_ifs at h with hbad
    exact ⟨receipt, hget, not_not.mp fun hne => hbad (.inl hne)⟩

/-- What a committed `finalize_receipt` has done: nothing, or one receipt and one step of the
counter. The third way, a receipt that was there before the counter moved, is kept apart. -/
theorem finalizeReceipt_ok (h : finalizeReceipt s job now = .ok s') : s'.offset = s.offset ∧ s'.inflight = s.inflight ∧
      (s' = s ∨ ∃ u u' parts, s.session = some u ∧ u.receivedCount = job.chunkNumber ∧
        u.advanceProviderRelayReceivedCount job.chunkNumber now = some u' ∧
        s'.session = some u' ∧ s'.parts = parts ∧
        (s.parts.finalizeClaimedPart job.partNumber providerRangeReceipt job.expectedSize now = some parts ∨
          parts = s.parts ∧ ∃ receipt, s.parts.get job.partNumber = some receipt ∧
            receipt.etag = providerRangeReceipt)) := by
  unfold finalizeReceipt at h
  split at h
  · simp at h
  · rename_i u hu
    split_ifs at h with hlt hne
    · obtain ⟨_, _, h⟩ := bind_ok h
      cases h
      exact ⟨rfl, rfl, .inl rfl⟩
    · obtain ⟨parts, hparts, h⟩ := bind_ok h
      split at h
      · simp at h
      · rename_i u' hadv
        cases h
        refine ⟨rfl, rfl, .inr ⟨u, u', parts, hu, by omega, hadv, rfl, rfl, ?_⟩⟩
        unfold writeReceipt at hparts
        split at hparts
        · rename_i parts' hfin
          cases hparts
          exact .inl hfin
        · obtain ⟨_, hval, hparts⟩ := bind_ok hparts
          cases hparts
          exact .inr ⟨rfl, validateCompletedReceipt_ok hval⟩

theorem finalizeStep_spec {next : Pc} (hI : Inv u₀ s) (hj : Fits u₀ job)
    (hend : job.chunkEnd ≤ s.offset) (hnext : Role u₀ s.offset next)
    (h : finalizeStep a s job next = some (s', p')) : Moves u₀ s s' ∧ Role u₀ s.offset p' := by
  unfold finalizeStep at h
  cases a with
  | succeed now =>
    dsimp only at h
    split at h
    · exact ended hI h
    · rename_i hfin
      cases h
      exact ⟨.finalized job now _ hj hend hfin, hnext⟩
  | lost now error =>
    dsimp only at h
    split at h
    · exact ended hI h
    · rename_i hfin
      cases h
      exact ⟨.finalized job now _ hj hend hfin, .done⟩
  | fail error =>
    exact ended hI h
  | _ => simp at h

theorem stepIdle_spec (hI : Inv u₀ s) (h : stepIdle a s = some (s', p')) : Moves u₀ s s' ∧ Role u₀ s.offset p' := by
  have hidle : Role u₀ s.offset .idle := .of_none rfl rfl rfl
  have hrest : ∀ index, ∀ f ∈ s.inflight.eraseIdx index, 0 ≤ f.size := fun index f hf =>
    hI.inflight f (mem_of_mem_eraseIdx hf)
  unfold stepIdle at h
  cases a with
  | put req now =>
    rcases hu : s.session with _ | u
    · rw [hu] at h
      cases h
      exact ⟨.refl hI, .done⟩
    · rw [hu] at h
      dsimp only at h
      split at h
      · exact ended hI h
      · rename_i job hjob
        cases h
        exact ⟨.refl hI, .of_job (startPut_fits (hI.geometry u hu) hjob) rfl rfl rfl⟩
  | reconcileProgress =>
    cases h
    exact ⟨.refl hI, .of_none rfl rfl rfl⟩
  | deliver index =>
    dsimp only at h
    split at h
    · simp at h
    · rename_i f hf
      split_ifs at h
      cases h
      exact ⟨.accepted f _ (mem_of_getElem? hf) (hrest index), hidle⟩
  | drop index =>
    cases h
    exact ⟨.quiet _ (hrest index), hidle⟩
  | setStatus status =>
    cases h
    exact ⟨.status status, hidle⟩
  | deleteSession =>
    cases h
    exact ⟨.deleted, hidle⟩
  | _ => simp at h

theorem claimTxn_moves (hI : Inv u₀ s) {r : ClaimResult} (h : claimTxn s job now = .ok (s', r)) : Moves u₀ s s' := by
  unfold claimTxn at h
  split at h
  · simp at h
  · rename_i u hu
    split_ifs at h with hstatus hlt hgt
    · obtain ⟨_, _, h⟩ := bind_ok h
      cases h
      exact .refl hI
    · have hk : job.partNumber = u.receivedCount + 1 := by
        unfold Job.partNumber
        omega
      split at h
      · rename_i parts hclaim
        cases h
        exact .claimed u now parts hu (hk ▸ hclaim)
      · cases h
        exact .refl hI

theorem stepClaiming_spec (hI : Inv u₀ s) (hj : Fits u₀ job)
    (h : stepClaiming a s job = some (s', p')) : Moves u₀ s s' ∧ Role u₀ s.offset p' := by
  unfold stepClaiming at h
  cases a with
  | succeed now =>
    dsimp only at h
    split at h
    · exact ended hI h
    all_goals
      rename_i htxn
      cases h
      exact ⟨claimTxn_moves hI htxn, .of_job hj rfl rfl rfl⟩
  | lost now error =>
    dsimp only at h
    split at h
    · exact ended hI h
    · rename_i htxn
      cases h
      exact ⟨claimTxn_moves hI htxn, .done⟩
  | fail error =>
    exact ended hI h
  | _ => simp at h

theorem stepUploading_spec (hI : Inv u₀ s) (hj : Fits u₀ job)
    (h : stepUploading a s job = some (s', p')) : Moves u₀ s s' ∧ Role u₀ s.offset p' := by
  unfold stepUploading at h
  cases a with
  | heartbeat =>
    split_ifs at h
    all_goals
      cases h
      exact ⟨.refl hI, .of_job hj rfl rfl rfl⟩
  | answered next =>
    dsimp only at h
    split_ifs at h with hlt hne
    · exact ended hI h
    · cases h
      exact ⟨.refl hI, .of_end hj (by omega) rfl rfl rfl⟩
  | bodyFails error =>
    cases h
    exact ⟨.refl hI, .of_job (hj.withBodyError error) rfl rfl rfl⟩
  | fail error =>
    cases h
    exact ⟨.refl hI, .of_job hj rfl rfl rfl⟩
  | _ => simp at h

theorem step_spec {p : Pc} (hI : Inv u₀ s) (hp : Role u₀ s.offset p)
    (hg : ReleasesNoReceipt s p a) (h : step a s p = some (s', p')) :
    Moves u₀ s s' ∧ Role u₀ s.offset p' := by
  unfold step at h
  split_ifs at h with hcrash
  · cases h
    exact ⟨.refl hI, .of_none rfl rfl rfl⟩
  cases p with dsimp only [stepRead] at h
  | idle => exact stepIdle_spec hI h
  | claiming job => exact stepClaiming_spec hI (hp.job job rfl) h
  | conflictQuery job =>
    have hj := hp.job job rfl
    dsimp only [stepConflictQuery] at h
    split at h
    · split_ifs at h with hend hstart
      all_goals cases h
      · exact ⟨.refl hI, .of_end hj hend rfl rfl rfl⟩
      · exact ⟨.refl hI, .done⟩
      · exact ⟨.refl hI, .of_job hj rfl rfl rfl⟩
    · exact ended hI h
    · simp at h
  | conflictFinalize job | finalize job =>
    have hj := hp.job job rfl
    exact finalizeStep_spec hI hj (hp.assured job rfl) (.of_job hj rfl rfl rfl) h
  | takeover job =>
    dsimp only [stepTakeover] at h
    split at h
    · split_ifs at h
      all_goals cases h
      · exact ⟨.kept _ (Parts.keeps_deleteStaleClaim ..), .of_job (hp.job job rfl) rfl rfl rfl⟩
      · exact ⟨.refl hI, .done⟩
    · exact ended hI h
    · simp at h
  | send job =>
    have hj := hp.job job rfl
    have hsize : 0 ≤ job.expectedSize := by
      have := expectedChunkSize_ok_iff.mp hj.size
      omega
    dsimp only [stepSend] at h
    split at h
    · cases h
      refine ⟨.quiet _ fun f hf => ?_, .of_job hj rfl rfl rfl⟩
      rcases mem_cons.mp hf with rfl | hf
      · exact hsize
      · exact hI.inflight f hf
    · cases h
      exact ⟨.refl hI, .of_job hj rfl rfl rfl⟩
    · simp at h
  | uploading job => exact stepUploading_spec hI (hp.job job rfl) h
  | touch job =>
    have hj := hp.job job rfl
    dsimp only [stepTouch] at h
    split at h
    · cases h
      exact ⟨.kept _ (Parts.keeps_touchClaimedPart ..), .of_job hj rfl rfl rfl⟩
    · cases h
      exact ⟨.refl hI, .of_job hj rfl rfl rfl⟩
    · simp at h
  | errorQuery job error =>
    have hj := hp.job job rfl
    dsimp only [stepErrorQuery] at h
    split at h
    · split_ifs at h with hend hstart
      all_goals cases h
      · exact ⟨.refl hI, .of_end hj hend rfl rfl rfl⟩
      · exact ⟨.refl hI, .of_job hj rfl rfl rfl⟩
      · exact ⟨.refl hI, .done⟩
    · exact ended hI h
    · simp at h
  | release job error =>
    dsimp only [stepRelease] at h
    split at h
    · cases h
      refine ⟨.kept _ (Parts.keeps_deleteWhere _ fun k r hr hk => ?_), .done⟩
      -- the guard: the row under this part number, if any, is a claim
      have hkey : r.partNumber = job.partNumber := by simpa using hk
      rw [← Table.key_of_get hr, hkey] at hr
      simpa [ReleasesNoReceipt, hr] using hg
    · exact ended hI h
    · simp at h
  | respond job =>
    split at h
    · exact ended hI h
    · exact ended hI h
    · simp at h
  | reconcileQuery =>
    split at h
    · cases h
      refine ⟨.refl hI, fun i hi => by simp [Pc.job] at hi, fun i hi => by simp [Pc.assured] at hi, fun n hn => ?_⟩
      exact (some.inj hn).ge
    · exact ended hI h
    · simp at h
  | reconcile nextOffset =>
    split at h
    · cases h
      exact ⟨.refl hI, reconcileNext_role hI (hp.seen nextOffset rfl)⟩
    · exact ended hI h
    · simp at h
  | reconcileFinalize nextOffset job =>
    refine finalizeStep_spec hI (hp.job job rfl) (hp.assured job rfl) ?_ h
    exact ⟨fun i hi => by simp [Pc.job] at hi, fun i hi => by simp [Pc.assured] at hi, fun n hn => hp.seen n hn⟩
  | done r => simp at h

end Steps

/-! ### Lockstep is preserved -/

theorem chunkBytes_congr (h : SameGeometry u v) (count : ℕ) : chunkBytes u count = chunkBytes v count := by
  refine Finset.sum_congr rfl fun i _ => ?_
  rcases hu : expectedChunkSizeForUpload u i with e | size
  · rcases hv : expectedChunkSizeForUpload v i with e' | size'
    · rfl
    · simp [h.symm.expected hv] at hu
  · rw [h.expected hu]

namespace Lockstep

variable {u v : UploadSession} {parts parts' : Parts} {offset offset' : ℤ}

theorem mono (h : Lockstep u parts offset) (hle : offset ≤ offset') : Lockstep u parts offset' :=
  ⟨h.recorded, h.receipt, h.claim, h.bytes.trans hle⟩

theorem congr (h : Lockstep u parts offset) (hg : SameGeometry u v)
    (hc : v.receivedCount = u.receivedCount) : Lockstep v parts offset := by
  refine ⟨?_, fun n r hr hne => ?_, ?_, ?_⟩
  · rw [hc]
    exact h.recorded
  · exact ⟨(h.receipt n r hr hne).1, hg.expected (h.receipt n r hr hne).2⟩
  · rw [hc]
    exact h.claim
  · rw [hc, ← chunkBytes_congr hg]
    exact h.bytes

theorem kept (h : Lockstep u parts offset) (hk : Parts.Keeps parts parts') : Lockstep u parts' offset := by
  refine ⟨fun n => ?_, fun n r' hr' hne => ?_, fun n r' hr' h0 => ?_, h.bytes⟩
  · rw [← h.recorded n]
    constructor
    · rintro ⟨r', hr', hne⟩
      obtain ⟨r, hr, he, -⟩ := hk.back n r' hr'
      exact ⟨r, hr, he ▸ hne⟩
    · rintro ⟨r, hr, hne⟩
      obtain ⟨r', hr', he, -⟩ := hk.forth n r hr hne
      exact ⟨r', hr', he ▸ hne⟩
  · obtain ⟨r, hr, he, hs⟩ := hk.back n r' hr'
    rw [← he, ← hs]
    exact h.receipt n r hr (he ▸ hne)
  · obtain ⟨r, hr, he, -⟩ := hk.back n r' hr'
    exact h.claim n r hr (he ▸ h0)

theorem claimed (h : Lockstep u parts offset) {now : ℕ}
    (hc : parts.tryClaimPart (u.receivedCount + 1) now = some parts') :
    Lockstep u parts' offset := by
  have hget := Parts.get_tryClaimPart hc
  -- a row that is finished now was there before: the new one is a claim
  have hold : ∀ n r, r.etag ≠ "" → (parts'.get n = some r ↔ parts.get n = some r) := by
    intro n r hne
    rw [hget]
    split_ifs with hn
    · subst hn
      have hnone : parts.get (u.receivedCount + 1) = none := (Table.insertNew_eq_some hc).1
      rw [hnone]
      constructor
      · intro hr
        cases hr
        exact absurd rfl hne
      · intro hr
        simp at hr
    · rfl
  refine ⟨fun n => ?_, fun n r hr hne => ?_, fun n r hr h0 => ?_, h.bytes⟩
  · rw [← h.recorded n]
    exact exists_congr fun r => and_congr_left fun hne => hold n r hne
  · exact h.receipt n r ((hold n r hne).mp hr) hne
  · rw [hget] at hr
    split_ifs at hr with hn
    · exact hn.symm
    · exact h.claim n r hr h0

/-- The claim of the next chunk becomes its receipt, once the provider holds the whole range. -/
theorem finalized (h : Lockstep u parts offset) {j : Job} {now : ℕ} (hj : Fits u j)
    (hk : u.receivedCount = j.chunkNumber) (hend : j.chunkEnd ≤ offset)
    (hg : SameGeometry u v) (hv : v.receivedCount = u.receivedCount + 1)
    (hc : parts.finalizeClaimedPart j.partNumber providerRangeReceipt j.expectedSize now
      = some parts') : Lockstep v parts' offset := by
  obtain ⟨⟨claim, hclaim, hclaim0⟩, hget⟩ := Parts.get_finalizeClaimedPart hc
  have hn : j.partNumber = u.receivedCount + 1 := by
    unfold Job.partNumber
    omega
  refine ⟨fun n => ?_, fun n r hr hne => ?_, fun n r hr h0 => ?_, ?_⟩
  · rw [hget, hv]
    split_ifs with hnn
    · constructor
      · rintro -
        have := hj.nonneg
        omega
      · rintro -
        exact ⟨_, rfl, providerRangeReceipt_ne⟩
    · rw [h.recorded n]
      omega
  · rw [hget] at hr
    split_ifs at hr with hnn
    · cases hr
      refine ⟨rfl, ?_⟩
      have hchunk : n - 1 = j.chunkNumber := by omega
      rw [hchunk]
      exact hg.expected hj.size
    · exact ⟨(h.receipt n r hr hne).1, hg.expected (h.receipt n r hr hne).2⟩
  · -- the only claim has just become a receipt
    rw [hget] at hr
    split_ifs at hr with hnn
    · cases hr
      exact absurd h0 providerRangeReceipt_ne
    · exact absurd (hn.trans (h.claim n r hr h0).symm) hnn
  · rw [hv, hk, ← chunkBytes_congr hg, hj.chunkBytes]
    exact hend

end Lockstep

theorem Moves.offset_le {u₀ : UploadSession} {s s' : State} (h : Moves u₀ s s') (hI : Inv u₀ s) :
    s.offset ≤ s'.offset := by
  cases h with
  | quiet | status | deleted | kept | claimed => exact le_refl _
  | accepted f _ hf _ =>
    have := hI.inflight f hf
    dsimp only
    omega
  | finalized job now _ _ _ h => exact (finalizeReceipt_ok h).1.ge

theorem advance_eq_some {u' : UploadSession} {k : ℤ} {now : ℕ}
    (h : u.advanceProviderRelayReceivedCount k now = some u') :
    SameGeometry u u' ∧ u'.receivedCount = u.receivedCount + 1 := by
  unfold UploadSession.advanceProviderRelayReceivedCount at h
  split_ifs at h
  cases h
  exact ⟨⟨rfl, rfl, rfl, rfl⟩, rfl⟩

theorem Fits.congr (h : Fits u j) (hg : SameGeometry u v) :
    Fits v j :=
  ⟨h.nonneg, hg.totalChunks ▸ h.inRange, hg.expected h.size, hg.chunkSize ▸ h.start⟩

theorem Moves.inv {u₀ : UploadSession} {s s' : State} (h : Moves u₀ s s') (hI : Inv u₀ s) : Inv u₀ s' := by
  have hle := h.offset_le hI
  cases h with
  | quiet _ hinf => exact ⟨hI.nonneg, hI.geometry, hinf, hI.lockstep⟩
  | accepted _ _ _ hinf =>
    exact ⟨hI.nonneg, hI.geometry, hinf, fun u hu => (hI.lockstep u hu).mono hle⟩
  | status status =>
    have hback : ∀ u, s.session.map ({ · with status }) = some u →
        ∃ v, s.session = some v ∧ SameGeometry v u ∧ u.receivedCount = v.receivedCount := by
      intro u hu
      obtain ⟨v, hv, rfl⟩ := map_eq_some_iff.mp hu
      exact ⟨v, hv, ⟨rfl, rfl, rfl, rfl⟩, rfl⟩
    refine ⟨fun u hu => ?_, fun u hu => ?_, hI.inflight, fun u hu => ?_⟩
    all_goals obtain ⟨v, hv, hg, hc⟩ := hback u hu
    · exact hc ▸ hI.nonneg v hv
    · exact hg.symm.trans (hI.geometry v hv)
    · exact (hI.lockstep v hv).congr hg hc
  | deleted =>
    exact ⟨fun u hu => by simp at hu, fun u hu => by simp at hu, hI.inflight, fun u hu => by simp at hu⟩
  | kept _ hk =>
    exact ⟨hI.nonneg, hI.geometry, hI.inflight, fun u hu => (hI.lockstep u hu).kept hk⟩
  | claimed u _ _ hu hc =>
    refine ⟨hI.nonneg, hI.geometry, hI.inflight, fun v hv => ?_⟩
    obtain rfl : u = v := some.inj (hu.symm.trans hv)
    exact (hI.lockstep u hu).claimed hc
  | finalized job now _ hj hend h =>
    obtain ⟨hoff, hinf, rfl | ⟨u, u', parts, hu, hk, hadv, hu', hparts, hwrite⟩⟩ :=
      finalizeReceipt_ok h
    · exact hI
    · obtain ⟨hg, hc⟩ := advance_eq_some hadv
      have hsame : ∀ v, s'.session = some v → v = u' := fun v hv =>
        some.inj (hv.symm.trans hu')
      refine ⟨fun v hv => ?_, fun v hv => ?_, hinf ▸ hI.inflight, fun v hv => ?_⟩
      all_goals obtain rfl := hsame v hv
      · have := hI.nonneg u hu
        omega
      · exact hg.symm.trans (hI.geometry u hu)
      · rw [hparts, hoff]
        have hl := hI.lockstep u hu
        rcases hwrite with hfin | ⟨-, receipt, hget, htag⟩
        · exact hl.finalized (hj.congr (hI.geometry u hu).symm) hk hend hg hc hfin
        · -- a receipt beyond the counter contradicts the lockstep
          have hrec := (hl.recorded job.partNumber).mp ⟨receipt, hget, htag ▸ providerRangeReceipt_ne⟩
          unfold Job.partNumber at hrec
          omega

/-! ### Whole runs -/

theorem Lockstep.init (u : ProviderSession) : Lockstep u.row Table.empty 0 := by
  have hcount : u.row.receivedCount = 0 := u.fresh
  refine ⟨fun n => ?_, fun n r hr => by simp at hr, fun n r hr => by simp at hr, ?_⟩
  · simp only [Table.get_empty, reduceCtorEq, false_and, exists_false, false_iff]
    omega
  · simp [hcount, chunkBytes]

theorem reach_holds {u : ProviderSession} {c : Config State Pc}
    (h : Reach providerRelay ReleasesNoReceipt (start u) c) :
    Holds (Inv u.row) (fun s p => Role u.row s.offset p) (fun _ _ => True) c := by
  refine h.owicki ?own ?other ?init
  case own =>
    intro s s' p p' a hI hp hg hstep
    obtain ⟨hmove, hrole⟩ := step_spec hI hp hg hstep
    exact ⟨hmove.inv hI, hrole.mono (hmove.offset_le hI)⟩
  case other =>
    intro s s' p p' q a hI hp hq _ _ hg hstep
    obtain ⟨hmove, -⟩ := step_spec hI hp hg hstep
    exact ⟨hq.mono (hmove.offset_le hI), trivial, trivial⟩
  case init =>
    refine ⟨⟨fun v hv => ?_, fun v hv => ?_, fun f hf => by simp [start] at hf, fun v hv => ?_⟩,
      fun i => ?_, fun _ _ _ => trivial⟩
    · obtain rfl : u.row = v := some.inj hv
      exact u.fresh.ge
    · obtain rfl : u.row = v := some.inj hv
      exact ⟨rfl, rfl, rfl, rfl⟩
    · obtain rfl : u.row = v := some.inj hv
      exact .init u
    · exact ⟨fun _ h => by simp [start, Pc.job] at h, fun _ h => by simp [start, Pc.assured] at h,
        fun _ h => by simp [start, Pc.seen] at h⟩

/-- **Receipts and provider in lockstep**, in every state of a run whose releases find no finished
receipt under their part number. -/
theorem receipts_lockstep {u : ProviderSession} {c : Config State Pc}
    (h : Reach providerRelay ReleasesNoReceipt (start u) c) {row : UploadSession}
    (hrow : c.shared.session = some row) : Lockstep row c.shared.parts c.shared.offset :=
  (reach_holds h).shared.lockstep row hrow

/-- A file of 7 bytes in chunks of 5. -/
def sevenBytes : ProviderSession where
  row :=
    { id := "provider-relay", totalSize := 7, chunkSize := 5, totalChunks := 2
      status := .uploading, sessionKind := .providerRelayResumable
      objectTempKey := some "files/temp", expiresAt := 1000 }
  kind := rfl
  fresh := rfl

/-- The provider takes the fragment of chunk 0 and its answer is lost; the retry finds the claim,
asks the provider and writes the receipt. -/
def retryAfterLostAnswer : List (ℕ × Act) :=
  [(0, .put ⟨0, 5, false⟩ 10), (0, .succeed 11), (0, .succeed 12), (9, .deliver 0), (0, .crash),
    (1, .put ⟨0, 5, false⟩ 13), (1, .succeed 14), (1, .succeed 15), (1, .succeed 16),
    (1, .succeed 17)]

theorem receipts_lockstep_sevenBytes : ∃ c row, Reach providerRelay ReleasesNoReceipt (start sevenBytes) c ∧
      c.shared.session = some row ∧ row.receivedCount = 1 ∧
      Lockstep row c.shared.parts c.shared.offset := by
  have hrun : (providerRelay.run ReleasesNoReceipt (start sevenBytes) retryAfterLostAnswer).isSome := by decide
  exact ⟨_, _, reach_run_get hrun, rfl, rfl, receipts_lockstep (reach_run_get hrun) rfl⟩

/-- Worker 0's upload times out and the provider still expects chunk 0, so worker 0 decides to
release its claim. Before it does, its fragment arrives after all and worker 1 turns the claim into
the receipt. -/
def releaseAfterReceipt : List (ℕ × Act) :=
  [(0, .put ⟨0, 5, false⟩ 10), (0, .succeed 11), (0, .succeed 12),
    (0, .fail (.ofStorage .transient "provider relay fragment upload timed out")),
    (0, .succeed 100), (9, .deliver 0), (1, .put ⟨0, 5, false⟩ 101), (1, .succeed 102),
    (1, .succeed 103), (1, .succeed 104), (0, .succeed 105)]

/-- **A release deletes a receipt**: the counter says one chunk, no part row is left. -/
theorem release_deletes_receipt :
    ¬ ∀ (u : ProviderSession) (c : Config State Pc), Reach providerRelay free (start u) c →
      ∀ row, c.shared.session = some row → Lockstep row c.shared.parts c.shared.offset := by
  intro hall
  have hrun : (providerRelay.run free (start sevenBytes) releaseAfterReceipt).isSome := by decide
  obtain ⟨r, hr, -⟩ := ((hall sevenBytes _ (reach_run_get hrun) _ rfl).recorded 1).mpr ⟨le_refl _, le_refl _⟩
  exact nomatch hr

end AsterDrive.Upload.ProviderRelay
