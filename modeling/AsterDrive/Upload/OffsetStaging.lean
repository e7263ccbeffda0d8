import AsterDrive.Lib.ByteFile
import AsterDrive.Lib.Interleave
import AsterDrive.Upload.Session
import Mathlib.Algebra.Order.Ring.Int
import Mathlib.Data.List.Sort
import Mathlib.Tactic.Ring
import Mathlib.Data.UInt

/-!
# OffsetStaging — chunks written at their offset into one staging file

The staging branch of `upload_chunk_impl` and `upload_chunk_payload_impl`, and the part of
completion that decides whether the staging file is the upload. A PUT takes the lock of its chunk,
looks for a receipt, writes its body piece by piece into the chunk's range, and then commits the
receipt; it may be cut off after any piece, and its transaction may fail. `complete` reads the
receipts and the file's length (`validate_offset_staging_file`).

`commits` records, for the statement only, which PUT committed which receipt. The results are
`receipts_counted`, `staged_bytes_fixed` and `validated_content`: what passes validation is the
concatenation of the bodies of the committing PUTs.
-/

namespace AsterDrive.Upload.OffsetStaging

open AsterDrive.Interleave List

/-! ### The model -/

def chunkReceiptEtag : String := "aster-drive-offset-staging-receipt-v1"

structure PutRequest where
  chunkNumber : ℤ
  body : List UInt8
  streamed : Bool

/-- A PUT whose receipt was committed. -/
structure Commit where
  chunkNumber : ℤ
  body : List UInt8

inductive Answer
  | chunk (receivedCount totalChunks : ℤ)
  | completed

/-- Where a worker stands. From `check` to `respond` it holds the lock of its chunk; `write` has
`written` bytes of the body in the range. -/
inductive Pc
  | idle
  | lock (req : PutRequest) (expectedSize : ℤ)
  | check (req : PutRequest) (expectedSize : ℤ)
  | skip (req : PutRequest) (expectedSize : ℤ)
  | write (req : PutRequest) (expectedSize : ℤ) (written : ℕ)
  | commit (req : PutRequest) (expectedSize : ℤ)
  | respond (req : PutRequest)
  | assemble (session : UploadSession)
  | receipts (session : UploadSession)
  | stat (session : UploadSession)
  | validated (session : UploadSession)
  | done (result : Except AsterError Answer)

structure State where
  session : UploadSession
  parts : Parts
  file : ByteFile UInt8
  locks : List ℤ := []
  commits : List Commit := []

/-- What is chosen for a worker. `piece n`: the next `n` bytes of the body arrive and are written;
`lost`: the transaction commits and the reply is lost; `setStatus`: cancellation, cleanup and the
error handling of completion. -/
inductive Act
  | put (req : PutRequest) (now : ℕ)
  | complete (now : ℕ)
  | succeed (now : ℕ)
  | fail (error : AsterError)
  | lost (now : ℕ) (error : AsterError)
  | piece (size : ℕ)
  | crash
  | setStatus (status : UploadSessionStatus)

def chunkBodyTooLarge (chunkNumber expectedSize : ℤ) : AsterError :=
  .payloadTooLarge
    { message := "chunk " ++ toString chunkNumber ++ " exceeds expected size "
        ++ toString expectedSize
      apiCode := some .uploadChunkTooLarge }

def receiptCorrupted (chunkNumber : ℤ) : AsterError :=
  .chunkUploadFailed
    { message := "local chunk receipt is corrupted for chunk " ++ toString chunkNumber
      apiCode := some .uploadChunkPersistFailed }

/-- `open_for_chunk_write`: the position of the chunk's range. -/
def chunkOffset (u : UploadSession) (chunkNumber : ℤ) : ℕ := (chunkNumber * u.chunkSize).toNat

def hasStagedChunkReceipt (t : Parts) (chunkNumber expectedSize : ℤ) : Except AsterError Bool :=
  match t.get (chunkNumber + 1) with
  | none => .ok false
  | some receipt =>
    if receipt.etag ≠ chunkReceiptEtag ∨ receipt.size ≠ expectedSize then
      .error (receiptCorrupted chunkNumber)
    else .ok true

/-- `record_staged_chunk_receipt`, inside its transaction: the flag says that this call inserted
the receipt. -/
def recordStagedChunkReceipt (u : UploadSession) (t : Parts) (chunkNumber expectedSize : ℤ)
    (now : ℕ) : Except AsterError (UploadSession × Parts × Bool) :=
  match t.insertPartIfMissing (chunkNumber + 1) chunkReceiptEtag expectedSize now with
  | some t' =>
    match u.incrementReceivedCountIfUploading now with
    | none => .error (uploadSessionChunkUnavailableError u)
    | some u' => .ok (u', t', true)
  | none =>
    match t.get (chunkNumber + 1) with
    | none => .error (.chunkUploadFailed
        { message := "local chunk receipt disappeared for chunk " ++ toString chunkNumber
          apiCode := some .uploadChunkPersistFailed })
    | some receipt =>
      if receipt.etag ≠ chunkReceiptEtag ∨ receipt.size ≠ expectedSize then
        .error (receiptCorrupted chunkNumber)
      else if u.status ≠ .uploading then .error (uploadSessionChunkUnavailableError u)
      else .ok (u, t, false)

/-- The checks before the lock. -/
def startPut (u : UploadSession) (req : PutRequest) (now : ℕ) : Except AsterError ℤ := do
  let expectedSize ← checkChunkRequest u req.chunkNumber now
  let _ ← checkBodyLength req.streamed req.chunkNumber expectedSize req.body.length
  return expectedSize

/-- `determine_completion_plan` for a staging session that is not completed. -/
def completionPlan (u : UploadSession) (now : ℕ) : Except AsterError Unit :=
  if u.status = .assembling then
    .error (.uploadAssembling { message := "upload is being processed, please wait and retry in a few seconds" })
  else if u.expiresAt ≤ now then .error (.uploadSessionExpired { message := "session expired" })
  else if u.status = .failed then
    .error (.uploadAssemblyFailed
      { message := "upload assembly failed previously; please start a new upload"
        apiCode := some .uploadPreviousFailure })
  else if u.receivedCount ≠ u.totalChunks then
    .error (.uploadAssemblyFailed
      { message := "expected " ++ toString u.totalChunks ++ " chunks, got " ++ toString u.receivedCount
        apiCode := some .uploadIncompleteChunks })
  else .ok ()

def chunkReceiptMatches (receipt : UploadSessionPart) (partNumber size : ℤ) : Bool :=
  receipt.partNumber = partNumber ∧ receipt.etag = chunkReceiptEtag ∧ receipt.size = size

/-- `list_all_by_upload`, in the order of the part numbers. -/
def listAllByUpload (t : Parts) : List UploadSessionPart := t.rows.insertionSort fun a b => a.partNumber ≤ b.partNumber

def validateReceipt (u : UploadSession) (chunkNumber : ℤ) (receipt : UploadSessionPart) :
    Except AsterError Unit := do
  let expectedSize ← expectedChunkSizeForUpload u chunkNumber
  if chunkReceiptMatches receipt (chunkNumber + 1) expectedSize then .ok ()
  else .error (.uploadAssemblyFailed
    { message := "offset staging receipt is invalid for chunk " ++ toString chunkNumber
        ++ ": part_number=" ++ toString receipt.partNumber ++ ", etag=" ++ receipt.etag
        ++ ", size=" ++ toString receipt.size ++ ", expected_size=" ++ toString expectedSize
      apiCode := some .uploadAssemblyIoFailed })

/-- The receipt half of `validate_offset_staging_file`. -/
def validateReceipts (u : UploadSession) (t : Parts) : Except AsterError Unit :=
  let receipts := listAllByUpload t
  if (receipts.length : ℤ) ≠ u.totalChunks then
    .error (.uploadAssemblyFailed
      { message := "offset staging receipt count mismatch: expected " ++ toString u.totalChunks
          ++ ", got " ++ toString receipts.length
        apiCode := some .uploadAssemblyIoFailed })
  else receipts.zipIdx.forM fun (receipt, chunkNumber) => validateReceipt u chunkNumber receipt

/-- The file half of `validate_offset_staging_file`. -/
def validateLength (u : UploadSession) (f : ByteFile UInt8) : Except AsterError Unit :=
  if (f.len : ℤ) ≠ u.totalSize then
    .error (.uploadAssemblyFailed
      { message := "chunk staging file size mismatch: expected " ++ toString u.totalSize ++ ", got " ++ toString f.len
        apiCode := some .uploadAssemblyIoFailed })
  else .ok ()

/-- The worker leaves; the lock of its chunk goes with it. -/
def unlock (s : State) (req : PutRequest) : State := { s with locks := s.locks.erase req.chunkNumber }

def stepIdle (a : Act) (s : State) : Option (State × Pc) :=
  match a with
  | .put req now =>
    match startPut s.session req now with
    | .error e => some (s, .done (.error e))
    | .ok expectedSize => some (s, .lock req expectedSize)
  | .complete now =>
    if s.session.status = .completed then some (s, .done (.ok .completed)) else
    match completionPlan s.session now with
    | .error e => some (s, .done (.error e))
    | .ok () => some (s, .assemble s.session)
  | .setStatus status => some ({ s with session := { s.session with status } }, .idle)
  | _ => none

def stepLock (a : Act) (s : State) (req : PutRequest) (expectedSize : ℤ) : Option (State × Pc) :=
  match a with
  | .succeed _ =>
    -- blocks while another worker holds it
    if req.chunkNumber ∈ s.locks then none
    else some ({ s with locks := req.chunkNumber :: s.locks }, .check req expectedSize)
  | .fail error => some (s, .done (.error error))
  | .crash => some (s, .idle)
  | _ => none

def stepCheck (a : Act) (s : State) (req : PutRequest) (expectedSize : ℤ) : Option (State × Pc) :=
  match a with
  | .succeed _ =>
    match hasStagedChunkReceipt s.parts req.chunkNumber expectedSize with
    | .error e => some (unlock s req, .done (.error e))
    | .ok true => some (s, .skip req expectedSize)
    | .ok false => some (s, .write req expectedSize 0)
  | .fail error => some (unlock s req, .done (.error error))
  | .crash => some (unlock s req, .idle)
  | _ => none

/-- A duplicate: a streamed body is drained, then the session is read once more. -/
def stepSkip (a : Act) (s : State) (req : PutRequest) (expectedSize : ℤ) : Option (State × Pc) :=
  match a with
  | .succeed _ =>
    if (req.body.length : ℤ) ≠ expectedSize then
      some (unlock s req, .done (.error (chunkSizeMismatch req.chunkNumber expectedSize req.body.length)))
    else if s.session.status ≠ .uploading then
      some (unlock s req, .done (.error (uploadSessionChunkUnavailableError s.session)))
    else some (unlock s req, .done (.ok (.chunk s.session.receivedCount s.session.totalChunks)))
  | .fail error => some (unlock s req, .done (.error error))
  | .crash => some (unlock s req, .idle)
  | _ => none

/-- `write_chunk_payload_to_staging_file`: a piece that would pass the end of the range is refused
before it is written. The buffered variant writes its body, whose length was checked, the same
way. -/
def stepWrite (a : Act) (s : State) (req : PutRequest) (expectedSize : ℤ) (written : ℕ) : Option (State × Pc) :=
  match a with
  | .piece size =>
    let data := (req.body.drop written).take size
    if expectedSize < (written + data.length : ℕ) then
      some (unlock s req, .done (.error (chunkBodyTooLarge req.chunkNumber expectedSize)))
    else
      some ({ s with
        file := s.file.pwrite (chunkOffset s.session req.chunkNumber + written) data },
        .write req expectedSize (written + data.length))
  | .succeed _ =>
    -- the end of the body
    if written < req.body.length then none
    else if (written : ℤ) ≠ expectedSize then
      some (unlock s req, .done (.error (chunkSizeMismatch req.chunkNumber expectedSize written)))
    else some (s, .commit req expectedSize)
  | .fail error => some (unlock s req, .done (.error error))
  | .crash => some (unlock s req, .idle)
  | _ => none

/-- The receipt transaction, in its three outcomes. -/
def stepCommit (a : Act) (s : State) (req : PutRequest) (expectedSize : ℤ) : Option (State × Pc) :=
  let committed (r : UploadSession × Parts × Bool) : State :=
    { s with
      session := r.1
      parts := r.2.1
      commits := if r.2.2 then ⟨req.chunkNumber, req.body⟩ :: s.commits else s.commits }
  match a with
  | .succeed now =>
    match recordStagedChunkReceipt s.session s.parts req.chunkNumber expectedSize now with
    | .error e => some (unlock s req, .done (.error e))
    | .ok r => some (committed r, .respond req)
  | .lost now error =>
    match recordStagedChunkReceipt s.session s.parts req.chunkNumber expectedSize now with
    | .error e => some (unlock s req, .done (.error e))
    | .ok r => some (unlock (committed r) req, .done (.error error))
  | .fail error => some (unlock s req, .done (.error error))
  | .crash => some (unlock s req, .idle)
  | _ => none

def stepRespond (a : Act) (s : State) (req : PutRequest) : Option (State × Pc) :=
  match a with
  | .succeed _ =>
    some (unlock s req, .done (.ok (.chunk s.session.receivedCount s.session.totalChunks)))
  | .fail error => some (unlock s req, .done (.error error))
  | .crash => some (unlock s req, .idle)
  | _ => none

/-- A read of completion: it goes on, or ends with the error. -/
def stepValidate (a : Act) (s : State) (check : Except AsterError Unit) (next : Pc) : Option (State × Pc) :=
  match a with
  | .succeed _ =>
    match check with
    | .error e => some (s, .done (.error e))
    | .ok () => some (s, next)
  | .fail error => some (s, .done (.error error))
  | .crash => some (s, .idle)
  | _ => none

/-- The compare-and-set that makes this worker the one that assembles. -/
def stepAssemble (a : Act) (s : State) (u : UploadSession) : Option (State × Pc) :=
  match a with
  | .succeed now =>
    match transitionUploadSessionToAssembling s.session .uploading now with
    | .error e => some (s, .done (.error e))
    | .ok session => some ({ s with session }, .receipts u)
  | .fail error => some (s, .done (.error error))
  | .crash => some (s, .idle)
  | _ => none

/-- One step of one worker. -/
def step (a : Act) (s : State) : Pc → Option (State × Pc)
  | .idle => stepIdle a s
  | .lock req expectedSize => stepLock a s req expectedSize
  | .check req expectedSize => stepCheck a s req expectedSize
  | .skip req expectedSize => stepSkip a s req expectedSize
  | .write req expectedSize written => stepWrite a s req expectedSize written
  | .commit req expectedSize => stepCommit a s req expectedSize
  | .respond req => stepRespond a s req
  | .assemble u => stepAssemble a s u
  | .receipts u => stepValidate a s (validateReceipts u s.parts) (.stat u)
  | .stat u => stepValidate a s (validateLength u s.file) (.validated u)
  | .validated _ => none
  | .done _ => none

def staging : System State Pc Act := ⟨step⟩

/-- An offset staging session as `init_chunked_upload_session` creates it. -/
structure OffsetSession where
  row : UploadSession
  kind : row.sessionKind = .offsetStaging
  fresh : row.receivedCount = 0
  sized : 0 ≤ row.totalSize
  chunked : 0 < row.chunkSize
  planned : row.totalChunks = (row.totalSize + row.chunkSize - 1) / row.chunkSize

/-- The fresh session with its preallocated file. -/
def start (u : OffsetSession) (file : ByteFile UInt8) : Config State Pc where
  shared := { session := u.row, parts := Table.empty, file }
  proc _ := .idle

/-! ### Chunks and their ranges -/

/-- The chunk exists and this is its size. -/
structure IsChunk (u : UploadSession) (k size : ℤ) : Prop where
  nonneg : 0 ≤ k
  inRange : k < u.totalChunks
  size : expectedChunkSizeForUpload u k = .ok size

variable {u : UploadSession} {k size : ℤ}

theorem IsChunk.size_pos (h : IsChunk u k size) : 0 < size := by
  have := expectedChunkSize_ok_iff.mp h.size
  omega

theorem IsChunk.congr {v : UploadSession} (h : IsChunk u k size) (hg : SameGeometry u v) : IsChunk v k size :=
  ⟨h.nonneg, hg.totalChunks ▸ h.inRange, hg.expected h.size⟩

theorem chunkOffset_congr {v : UploadSession} (hg : SameGeometry u v) (k : ℤ) : chunkOffset u k = chunkOffset v k := by
  unfold chunkOffset
  rw [hg.chunkSize]

theorem IsChunk.offset_succ (h : IsChunk u k size) : (chunkOffset u k : ℤ) + size =
      if k + 1 < u.totalChunks then (chunkOffset u (k + 1) : ℤ) else u.totalSize := by
  obtain ⟨-, hc, hsize⟩ := expectedChunkSize_ok_iff.mp h.size
  have hmul : 0 ≤ k * u.chunkSize := mul_nonneg h.nonneg hc.le
  have hsucc : (k + 1) * u.chunkSize = k * u.chunkSize + u.chunkSize := by ring
  unfold chunkOffset
  rw [Int.toNat_of_nonneg hmul, Int.toNat_of_nonneg (by omega)]
  split_ifs with hlast
  · omega
  · have hk : u.totalChunks = k + 1 := by
      have := h.inRange
      omega
    rcases hsize with ⟨hlt, -⟩ | ⟨-, hsize, -⟩
    · omega
    · rw [hsize, hk]
      ring

variable {i j : ℤ}

theorem chunkOffset_mono (hc : 0 < u.chunkSize) (h0 : 0 ≤ i) (h : i ≤ j) : chunkOffset u i ≤ chunkOffset u j := by
  unfold chunkOffset
  have : i * u.chunkSize ≤ j * u.chunkSize := mul_le_mul_of_nonneg_right h hc.le
  omega

variable {n : ℤ}

theorem IsChunk.disjoint_of_lt {m : ℤ} (hi : IsChunk u i m)
    (hj : IsChunk u j n) (h : i < j) : (chunkOffset u i : ℤ) + m ≤ chunkOffset u j := by
  have hc : 0 < u.chunkSize := (expectedChunkSize_ok_iff.mp hi.size).2.1
  have hsucc := hi.offset_succ
  have := hj.inRange
  have := chunkOffset_mono hc (by have := hi.nonneg; omega) (show i + 1 ≤ j by omega)
  omega

theorem IsChunk.disjoint {m : ℤ} (hi : IsChunk u i m) (hj : IsChunk u j n) (h : i ≠ j) :
    (chunkOffset u i : ℤ) + m ≤ chunkOffset u j ∨ (chunkOffset u j : ℤ) + n ≤ chunkOffset u i := by
  rcases lt_or_gt_of_ne h with hlt | hgt
  · exact .inl (hi.disjoint_of_lt hj hlt)
  · exact .inr (hj.disjoint_of_lt hi hgt)

/-! ### The invariant -/

/-- A receipt is backed by the body of the PUT that committed it, which stands in its range. -/
structure Backed (u₀ : UploadSession) (s : State) (n : ℤ) (r : UploadSessionPart) : Prop where
  chunk : IsChunk u₀ (n - 1) r.size
  etag : r.etag = chunkReceiptEtag
  body : ∃ body, ⟨n - 1, body⟩ ∈ s.commits ∧ (body.length : ℤ) = r.size ∧ s.file.HasAt (chunkOffset u₀ (n - 1)) body

structure Inv (u₀ : UploadSession) (s : State) : Prop where
  geometry : SameGeometry s.session u₀
  count : s.session.receivedCount = s.parts.total fun _ => 1
  backed : ∀ n r, s.parts.get n = some r → Backed u₀ s n r
  committed : ∀ e ∈ s.commits, ∃ r, s.parts.get (e.chunkNumber + 1) = some r
  once : (s.commits.map Commit.chunkNumber).Nodup

/-- Every chunk has its receipt. -/
def AllStaged (u₀ : UploadSession) (t : Parts) : Prop := ∀ k, 0 ≤ k → k < u₀.totalChunks → ∃ r, t.get (k + 1) = some r

/-- What a worker knows at the place where it stands. -/
def Knows (u₀ : UploadSession) (s : State) : Pc → Prop
  | .lock req size | .check req size | .skip req size => IsChunk u₀ req.chunkNumber size
  | .write req size written =>
    IsChunk u₀ req.chunkNumber size ∧ s.parts.get (req.chunkNumber + 1) = none ∧
      written ≤ req.body.length ∧ (written : ℤ) ≤ size ∧
      s.file.HasAt (chunkOffset u₀ req.chunkNumber) (req.body.take written)
  | .commit req size =>
    IsChunk u₀ req.chunkNumber size ∧ s.parts.get (req.chunkNumber + 1) = none ∧
      (req.body.length : ℤ) = size ∧ s.file.HasAt (chunkOffset u₀ req.chunkNumber) req.body
  | .assemble u | .receipts u => SameGeometry u u₀
  | .stat u => SameGeometry u u₀ ∧ AllStaged u₀ s.parts
  | .validated u => SameGeometry u u₀ ∧ AllStaged u₀ s.parts ∧ (s.file.len : ℤ) = u₀.totalSize
  | .idle | .respond _ | .done _ => True

/-- The chunk whose lock the worker holds. -/
def Pc.locked : Pc → Option ℤ
  | .check req _ | .skip req _ | .write req _ _ | .commit req _ | .respond req =>
    some req.chunkNumber
  | _ => none

structure Role (u₀ : UploadSession) (s : State) (p : Pc) : Prop where
  knows : Knows u₀ s p
  locked : ∀ k, p.locked = some k → k ∈ s.locks

def Apart (p q : Pc) : Prop := ∀ k, p.locked = some k → q.locked ≠ some k

/-- The steps, as far as the rows and the file are concerned. -/
inductive Moves (u₀ : UploadSession) (s : State) (p : Pc) : State → Prop
  | quiet (session : UploadSession) (locks : List ℤ) (hg : SameGeometry session s.session)
      (hc : session.receivedCount = s.session.receivedCount) :
      Moves u₀ s p { s with session, locks }
  | wrote (k size : ℤ) (off : ℕ) (data : List UInt8) (hl : p.locked = some k)
      (hk : IsChunk u₀ k size) (hclear : s.parts.get (k + 1) = none)
      (hoff : (off + data.length : ℕ) ≤ size) :
      Moves u₀ s p { s with file := s.file.pwrite (chunkOffset u₀ k + off) data }
  | committed (k size : ℤ) (body : List UInt8) (now : ℕ) (session : UploadSession)
      (parts : Parts) (locks : List ℤ) (hl : p.locked = some k) (hk : IsChunk u₀ k size)
      (hbody : (body.length : ℤ) = size) (hat : s.file.HasAt (chunkOffset u₀ k) body)
      (hu : s.session.incrementReceivedCountIfUploading now = some session)
      (hins : s.parts.insertPartIfMissing (k + 1) chunkReceiptEtag size now = some parts) :
      Moves u₀ s p { s with session, parts, locks, commits := ⟨k, body⟩ :: s.commits }

/-- The locks of other workers stay, and a lock that the worker holds afterwards was its own or
free. -/
structure LockMoves (s : State) (p : Pc) (s' : State) (p' : Pc) : Prop where
  others : ∀ k ∈ s.locks, p.locked ≠ some k → k ∈ s'.locks
  own : ∀ k, p'.locked = some k → k ∈ s'.locks ∧ (p.locked = some k ∨ k ∉ s.locks)

section Steps

variable {u₀ : UploadSession} {a : Act} {s s' : State} {p p' q : Pc}

theorem LockMoves.same (hs : s'.locks = s.locks) (hp : p'.locked = p.locked ∨ p'.locked = none)
    (hr : Role u₀ s p) : LockMoves s p s' p' := by
  refine ⟨fun k hk _ => hs ▸ hk, fun k hk => ?_⟩
  rcases hp with hp | hp
  · exact ⟨hs ▸ hr.locked k (hp ▸ hk), .inl (hp ▸ hk)⟩
  · simp [hp] at hk

variable {req : PutRequest}

theorem LockMoves.unlock (hs : s'.locks = s.locks.erase req.chunkNumber)
    (hp : p.locked = some req.chunkNumber) (hp' : p'.locked = none) : LockMoves s p s' p' := by
  refine ⟨fun k hk hne => ?_, fun k hk => by simp [hp'] at hk⟩
  rw [hs, mem_erase_of_ne]
  · exact hk
  · rintro rfl
    exact hne hp

theorem Moves.refl : Moves u₀ s p s := .quiet s.session s.locks ⟨rfl, rfl, rfl, rfl⟩ rfl

theorem moves_unlock : Moves u₀ s p (unlock s req) := .quiet s.session _ ⟨rfl, rfl, rfl, rfl⟩ rfl

/-- What one step of one worker establishes. -/
def Sound (u₀ : UploadSession) (s : State) (p : Pc) (s' : State) (p' : Pc) : Prop :=
  Moves u₀ s p s' ∧ LockMoves s p s' p' ∧ Knows u₀ s' p'

theorem Sound.leave (hp : p.locked = some req.chunkNumber) (hp' : p'.locked = none)
    (hk : Knows u₀ (unlock s req) p') : Sound u₀ s p (unlock s req) p' := ⟨moves_unlock, .unlock rfl hp hp', hk⟩

theorem Sound.stay (hr : Role u₀ s p) (hp : p'.locked = p.locked ∨ p'.locked = none)
    (hk : Knows u₀ s p') : Sound u₀ s p s p' :=
  ⟨.refl, .same rfl hp hr, hk⟩

theorem stepIdle_sound (hI : Inv u₀ s) (hr : Role u₀ s .idle)
    (h : stepIdle a s = some (s', p')) : Sound u₀ s .idle s' p' := by
  unfold stepIdle at h
  cases a with
  | put req now =>
    dsimp only at h
    split at h
    · cases h
      exact .stay hr (.inr rfl) trivial
    · rename_i size hstart
      cases h
      obtain ⟨size', hcheck, hstart⟩ := bind_ok hstart
      obtain ⟨-, -, hstart⟩ := bind_ok hstart
      obtain rfl := pure_ok_iff.mp hstart
      obtain ⟨h0, hlt, hsize⟩ := checkChunkRequest_ok hcheck
      have hk : IsChunk s.session req.chunkNumber size' := ⟨h0, hlt, hsize⟩
      exact .stay hr (.inl rfl) (hk.congr hI.geometry)
  | complete now =>
    dsimp only at h
    split_ifs at h
    · cases h
      exact .stay hr (.inr rfl) trivial
    · split at h
      · cases h
        exact .stay hr (.inr rfl) trivial
      · cases h
        exact .stay hr (.inl rfl) hI.geometry
  | setStatus status =>
    cases h
    exact ⟨.quiet _ s.locks ⟨rfl, rfl, rfl, rfl⟩ rfl, .same rfl (.inl rfl) hr, trivial⟩
  | _ => simp at h

variable {size : ℤ}

theorem stepLock_sound (hr : Role u₀ s (.lock req size))
    (h : stepLock a s req size = some (s', p')) : Sound u₀ s (.lock req size) s' p' := by
  unfold stepLock at h
  cases a with
  | succeed now =>
    split_ifs at h with hfree
    cases h
    refine ⟨.quiet s.session _ ⟨rfl, rfl, rfl, rfl⟩ rfl, ⟨?_, ?_⟩, hr.knows⟩
    · intro k hk _
      exact mem_cons_of_mem _ hk
    · intro k hk
      cases hk
      exact ⟨mem_cons_self, .inr hfree⟩
  | fail error | crash =>
    cases h
    exact .stay hr (.inr rfl) trivial
  | _ => simp at h

/-- The check under the lock: a worker that goes on to write has seen that there is no receipt. -/
theorem stepCheck_sound (hr : Role u₀ s (.check req size))
    (h : stepCheck a s req size = some (s', p')) : Sound u₀ s (.check req size) s' p' := by
  unfold stepCheck at h
  cases a with
  | succeed now =>
    dsimp only at h
    split at h
    · cases h
      exact .leave rfl rfl trivial
    · cases h
      exact .stay hr (.inl rfl) hr.knows
    · rename_i hnone
      cases h
      have hclear : s.parts.get (req.chunkNumber + 1) = none := by
        unfold hasStagedChunkReceipt at hnone
        split at hnone
        · assumption
        · split_ifs at hnone
          simp at hnone
      refine .stay hr (.inl rfl) ⟨hr.knows, hclear, Nat.zero_le _, ?_, ?_⟩
      · exact_mod_cast (IsChunk.size_pos hr.knows).le
      · exact ByteFile.HasAt.nil s.file _
  | fail error | crash =>
    cases h
    exact .leave rfl rfl trivial
  | _ => simp at h

theorem stepSkip_sound (h : stepSkip a s req size = some (s', p')) : Sound u₀ s (.skip req size) s' p' := by
  unfold stepSkip at h
  cases a with
  | succeed now =>
    split_ifs at h
    all_goals
      cases h
      exact .leave rfl rfl trivial
  | fail error | crash =>
    cases h
    exact .leave rfl rfl trivial
  | _ => simp at h

theorem stepWrite_sound {written : ℕ} (hI : Inv u₀ s) (hr : Role u₀ s (.write req size written))
    (h : stepWrite a s req size written = some (s', p')) :
    Sound u₀ s (.write req size written) s' p' := by
  obtain ⟨hk, hclear, hle, hsize, hat⟩ := hr.knows
  unfold stepWrite at h
  cases a with
  | piece n =>
    dsimp only at h
    set data := (req.body.drop written).take n with hdata
    split_ifs at h with hlarge
    · cases h
      exact .leave rfl rfl trivial
    · rw [chunkOffset_congr hI.geometry] at h
      cases h
      have hlen : data.length ≤ req.body.length - written := by
        rw [hdata, length_take, length_drop]
        omega
      -- the pieces so far and this one are the next longer prefix of the body
      have htake : req.body.take (written + data.length) = req.body.take written ++ data := by
        rw [take_add, hdata, length_take, length_drop]
        congr 1
        rw [take_eq_take_iff, length_drop]
        omega
      have hlen' : (req.body.take written).length = written := by
        rw [length_take]
        omega
      refine ⟨.wrote req.chunkNumber size written data rfl hk hclear (by omega),
        .same rfl (.inl rfl) hr, hk, hclear, by omega, by omega, ?_⟩
      have happ : (s.file.pwrite (chunkOffset u₀ req.chunkNumber + (req.body.take written).length)
          data).HasAt (chunkOffset u₀ req.chunkNumber) (req.body.take written ++ data) :=
        hat.pwrite_append
      rw [hlen'] at happ
      rw [htake]
      exact happ
  | succeed now =>
    split_ifs at h with hmore hne
    · cases h
      exact .leave rfl rfl trivial
    · cases h
      have hfull : written = req.body.length := by omega
      rw [hfull, take_length] at hat
      exact .stay hr (.inl rfl) ⟨hk, hclear, by omega, hat⟩
  | fail error | crash =>
    cases h
    exact .leave rfl rfl trivial
  | _ => simp at h

variable {u : UploadSession}

theorem recordStagedChunkReceipt_ok {t : Parts} {k : ℤ} {now : ℕ}
    {r : UploadSession × Parts × Bool} (hclear : t.get (k + 1) = none)
    (h : recordStagedChunkReceipt u t k size now = .ok r) :
    ∃ u' t', r = (u', t', true) ∧ u.incrementReceivedCountIfUploading now = some u' ∧
      t.insertPartIfMissing (k + 1) chunkReceiptEtag size now = some t' := by
  unfold recordStagedChunkReceipt at h
  split at h
  · rename_i t' hins
    split at h
    · simp at h
    · rename_i u' hu
      exact ⟨u', t', (Except.ok.inj h).symm, hu, hins⟩
  · rw [hclear] at h
    simp at h

theorem stepCommit_sound (hr : Role u₀ s (.commit req size))
    (h : stepCommit a s req size = some (s', p')) : Sound u₀ s (.commit req size) s' p' := by
  obtain ⟨hk, hclear, hlen, hat⟩ := hr.knows
  unfold stepCommit at h
  cases a with
  | succeed now =>
    dsimp only at h
    split at h
    · cases h
      exact .leave rfl rfl trivial
    · rename_i r hrec
      obtain ⟨u', t', rfl, hu, hins⟩ := recordStagedChunkReceipt_ok hclear hrec
      cases h
      exact ⟨.committed req.chunkNumber size req.body now u' t' s.locks rfl hk hlen hat hu hins,
        .same rfl (.inl rfl) hr, trivial⟩
  | lost now error =>
    dsimp only at h
    split at h
    · cases h
      exact .leave rfl rfl trivial
    · rename_i r hrec
      obtain ⟨u', t', rfl, hu, hins⟩ := recordStagedChunkReceipt_ok hclear hrec
      cases h
      exact ⟨.committed req.chunkNumber size req.body now u' t' _ rfl hk hlen hat hu hins, .unlock rfl rfl rfl, trivial⟩
  | fail error | crash =>
    cases h
    exact .leave rfl rfl trivial
  | _ => simp at h

theorem stepRespond_sound (h : stepRespond a s req = some (s', p')) : Sound u₀ s (.respond req) s' p' := by
  unfold stepRespond at h
  cases a with
  | succeed now | fail error | crash =>
    cases h
    exact .leave rfl rfl trivial
  | _ => simp at h

/-- The receipts are as many as the chunks and the `k`-th is chunk `k`'s: each chunk has one. -/
theorem validateReceipts_ok {t : Parts} {r : Unit} (h : validateReceipts u t = .ok r) : AllStaged u t := by
  unfold validateReceipts at h
  dsimp only at h
  split_ifs at h with hlen
  intro k h0 hk
  have hidx : k.toNat < (listAllByUpload t).length := by omega
  have hmem : ((listAllByUpload t)[k.toNat], k.toNat) ∈ (listAllByUpload t).zipIdx := by
    rw [mem_zipIdx_iff_getElem?]
    exact getElem?_eq_getElem hidx
  have hvalid := forM_ok_iff.mp h _ hmem
  obtain ⟨size, -, hmatch⟩ := bind_ok hvalid
  split_ifs at hmatch with hm
  have hnum : (listAllByUpload t)[k.toNat].partNumber = k + 1 := by
    have := hm
    simp only [chunkReceiptMatches, decide_eq_true_eq] at this
    omega
  have hrow : (listAllByUpload t)[k.toNat] ∈ t.rows := (mem_insertionSort _).mp (getElem_mem hidx)
  exact ⟨_, Table.get_eq_some_iff.mpr ⟨hrow, hnum⟩⟩

theorem stepValidate_sound {check : Except AsterError Unit} {next : Pc} (hr : Role u₀ s p) (hnext : next.locked = none)
    (hk : ∀ r, check = .ok r → Knows u₀ s next)
    (h : stepValidate a s check next = some (s', p')) : Sound u₀ s p s' p' := by
  unfold stepValidate at h
  cases a with
  | succeed now =>
    dsimp only at h
    split at h
    · cases h
      exact .stay hr (.inr rfl) trivial
    · cases h
      exact .stay hr (.inr hnext) (hk () rfl)
  | fail error | crash =>
    cases h
    exact .stay hr (.inr rfl) trivial
  | _ => simp at h

theorem transition_ok {u' : UploadSession} {expected : UploadSessionStatus} {now : ℕ}
    (h : transitionUploadSessionToAssembling u expected now = .ok u') :
    SameGeometry u' u ∧ u'.receivedCount = u.receivedCount := by
  unfold transitionUploadSessionToAssembling UploadSession.tryTransitionStatusBeforeExpiry at h
  split at h
  · rename_i hsome
    split_ifs at hsome
    cases hsome
    cases h
    exact ⟨⟨rfl, rfl, rfl, rfl⟩, rfl⟩
  · split_ifs at h

theorem stepAssemble_sound (hr : Role u₀ s (.assemble u))
    (h : stepAssemble a s u = some (s', p')) : Sound u₀ s (.assemble u) s' p' := by
  unfold stepAssemble at h
  cases a with
  | succeed now =>
    dsimp only at h
    split at h
    · cases h
      exact .stay hr (.inr rfl) trivial
    · rename_i session htrans
      cases h
      obtain ⟨hg, hc⟩ := transition_ok htrans
      exact ⟨.quiet session s.locks hg hc, .same rfl (.inl rfl) hr, hr.knows⟩
  | fail error | crash =>
    cases h
    exact .stay hr (.inr rfl) trivial
  | _ => simp at h

theorem step_sound (hI : Inv u₀ s) (hr : Role u₀ s p) (h : step a s p = some (s', p')) : Sound u₀ s p s' p' := by
  cases p with
  | idle => exact stepIdle_sound hI hr h
  | lock req size => exact stepLock_sound hr h
  | check req size => exact stepCheck_sound hr h
  | skip req size => exact stepSkip_sound h
  | write req size written => exact stepWrite_sound hI hr h
  | commit req size => exact stepCommit_sound hr h
  | respond req => exact stepRespond_sound h
  | assemble u => exact stepAssemble_sound hr h
  | receipts u =>
    have hg : SameGeometry u u₀ := hr.knows
    have hall : ∀ r, validateReceipts u s.parts = .ok r → Knows u₀ s (.stat u) := fun r hok =>
      ⟨hg, fun k h0 hk => validateReceipts_ok hok k h0 (hg.totalChunks ▸ hk)⟩
    exact stepValidate_sound hr rfl hall h
  | stat u =>
    obtain ⟨hg, hall⟩ := hr.knows
    have hlen : ∀ r, validateLength u s.file = .ok r → Knows u₀ s (.validated u) := by
      intro r hok
      unfold validateLength at hok
      split_ifs at hok with hlen
      exact ⟨hg, hall, by rw [← hg.totalSize]; omega⟩
    exact stepValidate_sound hr rfl hlen h
  | validated u | done r => simp [step] at h

end Steps

/-! ### Preservation -/

section Preservation

variable {u₀ : UploadSession} {a : Act} {s s' : State} {p p' q : Pc}

theorem hasAt_other {f : ByteFile UInt8} {i j m n : ℤ} {off : ℕ} {body data : List UInt8}
    (hi : IsChunk u₀ i m) (hj : IsChunk u₀ j n) (hij : i ≠ j) (hbody : (body.length : ℤ) ≤ m)
    (hdata : ((off + data.length : ℕ) : ℤ) ≤ n) (h : f.HasAt (chunkOffset u₀ i) body) :
    (f.pwrite (chunkOffset u₀ j + off) data).HasAt (chunkOffset u₀ i) body := by
  have hd := hi.disjoint hj hij
  refine h.pwrite_of_disjoint ?_
  omega

theorem increment_eq_some {u u' : UploadSession} {now : ℕ} (h : u.incrementReceivedCountIfUploading now = some u') :
    SameGeometry u' u ∧ u'.receivedCount = u.receivedCount + 1 := by
  unfold UploadSession.incrementReceivedCountIfUploading at h
  split_ifs at h
  cases h
  exact ⟨⟨rfl, rfl, rfl, rfl⟩, rfl⟩

section

variable (h : Moves u₀ s p s')
include h

theorem Moves.inv (hI : Inv u₀ s) : Inv u₀ s' := by
  cases h with
  | quiet session locks hg hc =>
    refine ⟨hg.trans hI.geometry, hc.trans hI.count, fun n r hr => ?_, hI.committed, hI.once⟩
    obtain ⟨hk, he, hbody⟩ := hI.backed n r hr
    exact ⟨hk, he, hbody⟩
  | wrote k size off data hl hk hclear hoff =>
    refine ⟨hI.geometry, hI.count, fun n r hr => ?_, hI.committed, hI.once⟩
    obtain ⟨hn, he, body, hmem, hlen, hat⟩ := hI.backed n r hr
    have hne : n - 1 ≠ k := by
      rintro rfl
      rw [sub_add_cancel] at hclear
      exact absurd (hclear.symm.trans hr) (by simp)
    exact ⟨hn, he, body, hmem, hlen, hasAt_other hn hk hne hlen.le hoff hat⟩
  | committed k size body now session parts locks hl hk hbody hat hu hins =>
    obtain ⟨hg, hc⟩ := increment_eq_some hu
    have hget := Table.get_insertNew hins
    have hfresh : s.parts.get (k + 1) = none := (Table.insertNew_eq_some hins).1
    refine ⟨hg.trans hI.geometry, ?_, fun n r hr => ?_, fun e he => ?_, ?_⟩
    · dsimp only
      rw [hc, Table.total_insertNew hins, hI.count]
    · dsimp only at hr
      rw [hget] at hr
      split_ifs at hr with hn
      · cases hr
        have hn' : n - 1 = k := by
          dsimp only at hn
          omega
        rw [← hn'] at hk hat
        exact ⟨hk, rfl, body, by simp [hn'], hbody, hat⟩
      · obtain ⟨hn, he, body', hmem, hlen, hat'⟩ := hI.backed n r hr
        exact ⟨hn, he, body', mem_cons_of_mem _ hmem, hlen, hat'⟩
    · dsimp only
      rw [hget]
      rcases mem_cons.mp he with rfl | he
      · exact ⟨_, if_pos rfl⟩
      · obtain ⟨r, hr⟩ := hI.committed e he
        split_ifs
        · exact ⟨_, rfl⟩
        · exact ⟨r, hr⟩
    · -- a chunk with a commit has a receipt, and this one had none
      refine nodup_cons.mpr ⟨fun hmem => ?_, hI.once⟩
      obtain ⟨e, he, rfl⟩ := mem_map.mp hmem
      obtain ⟨r, hr⟩ := hI.committed e he
      exact absurd (hfresh.symm.trans hr) (by simp)

theorem Moves.receipt_stays {n : ℤ} {r : UploadSessionPart}
    (hr : s.parts.get n = some r) : s'.parts.get n = some r := by
  cases h with
  | quiet | wrote => exact hr
  | committed k size body now session parts locks hl hk hbody hat hu hins =>
    rw [Table.get_insertNew hins, if_neg]
    · exact hr
    · rintro rfl
      exact absurd ((Table.insertNew_eq_some hins).1.symm.trans hr) (by simp)

theorem Moves.commits_stay {e : Commit} (he : e ∈ s.commits) : e ∈ s'.commits := by
  cases h with
  | quiet | wrote => exact he
  | committed => exact mem_cons_of_mem _ he

theorem Moves.allStaged (hall : AllStaged u₀ s.parts) : AllStaged u₀ s'.parts := fun k h0 hk =>
  (hall k h0 hk).imp fun _ hr => h.receipt_stays hr

theorem Moves.clear_stays {k : ℤ} (hne : p.locked ≠ some k)
    (hk : s.parts.get (k + 1) = none) : s'.parts.get (k + 1) = none := by
  cases h with
  | quiet | wrote => exact hk
  | committed j size body now session parts locks hl hj hbody hat hu hins =>
    rw [Table.get_insertNew hins, if_neg]
    · exact hk
    · intro hjk
      dsimp only at hjk
      obtain rfl : j = k := by omega
      exact hne hl

theorem Moves.hasAt_stays {k size : ℤ} {body : List UInt8}
    (hne : p.locked ≠ some k) (hk : IsChunk u₀ k size) (hlen : (body.length : ℤ) ≤ size)
    (hat : s.file.HasAt (chunkOffset u₀ k) body) : s'.file.HasAt (chunkOffset u₀ k) body := by
  cases h with
  | quiet | committed => exact hat
  | wrote j n off data hl hj hclear hoff =>
    refine hasAt_other hk hj ?_ hlen hoff hat
    rintro rfl
    exact hne hl

theorem Moves.file_of_allStaged (hall : AllStaged u₀ s.parts) : s'.file = s.file := by
  cases h with
  | quiet | committed => rfl
  | wrote k size off data hl hk hclear hoff =>
    obtain ⟨r, hr⟩ := hall k hk.nonneg hk.inRange
    exact absurd (hclear.symm.trans hr) (by simp)

theorem Moves.knows_other (hq : Role u₀ s q) (hpq : Apart p q) : Knows u₀ s' q := by
  have hne : ∀ k, q.locked = some k → p.locked ≠ some k := fun k hk hp => hpq k hp hk
  have hknows := hq.knows
  cases q with
  | idle | respond | done => trivial
  | lock | check | skip | assemble | receipts => exact hknows
  | write req size written =>
    obtain ⟨hk, hclear, hle, hsize, hat⟩ := hknows
    have htake : ((req.body.take written).length : ℤ) ≤ size := by
      rw [length_take]
      omega
    exact ⟨hk, h.clear_stays (hne _ rfl) hclear, hle, hsize, h.hasAt_stays (hne _ rfl) hk htake hat⟩
  | commit req size =>
    obtain ⟨hk, hclear, hlen, hat⟩ := hknows
    exact ⟨hk, h.clear_stays (hne _ rfl) hclear, hlen, h.hasAt_stays (hne _ rfl) hk hlen.le hat⟩
  | stat u => exact ⟨hknows.1, h.allStaged hknows.2⟩
  | validated u =>
    refine ⟨hknows.1, h.allStaged hknows.2.1, ?_⟩
    rw [h.file_of_allStaged hknows.2.1]
    exact hknows.2.2

end

theorem Apart.symm (h : Apart p q) : Apart q p := fun k hq hp => h k hp hq

theorem LockMoves.apart (h : LockMoves s p s' p') (hq : Role u₀ s q) (hpq : Apart p q) : Apart p' q := by
  intro k hk hqk
  rcases (h.own k hk).2 with hp | hfree
  · exact hpq k hp hqk
  · exact hfree (hq.locked k hqk)

end Preservation

/-! ### Whole runs -/

theorem holds_start (u : OffsetSession) (file : ByteFile UInt8) :
    Holds (Inv u.row) (Role u.row) Apart (start u file) := by
  refine ⟨⟨⟨rfl, rfl, rfl, rfl⟩, u.fresh, fun n r hr => by simp [start] at hr,
    fun e he => by simp [start] at he, nodup_nil⟩, fun i => ⟨trivial, ?_⟩, fun i j _ => ?_⟩
  all_goals
    intro k hk
    simp [start, Pc.locked] at hk

variable {u₀ : UploadSession} {c c' : Config State Pc}

section

variable (hc : Holds (Inv u₀) (Role u₀) Apart c)
include hc

theorem holds_of_reach (h : Reach staging free c c') : Holds (Inv u₀) (Role u₀) Apart c' := by
  refine h.owicki ?own ?other hc
  case own =>
    intro s s' p p' a hI hp _ hstep
    obtain ⟨hm, hl, hk⟩ := step_sound hI hp hstep
    exact ⟨hm.inv hI, hk, fun k hk => (hl.own k hk).1⟩
  case other =>
    intro s s' p p' q a hI hp hq hpq hqp _ hstep
    obtain ⟨hm, hl, -⟩ := step_sound hI hp hstep
    refine ⟨⟨hm.knows_other hq hpq, fun k hk => ?_⟩, hl.apart hq hpq, (hl.apart hq hpq).symm⟩
    exact hl.others k (hq.locked k hk) fun hpk => hpq k hpk hk

theorem receipts_counted : c.shared.session.receivedCount = c.shared.parts.rows.length := by
  rw [hc.shared.count, Table.total]
  simp

theorem commits_of_reach (h : Reach staging free c c') {e : Commit}
    (he : e ∈ c.shared.commits) : e ∈ c'.shared.commits := by
  induction h with
  | refl => exact he
  | step hreach _ hf ih =>
    obtain ⟨s', p', hstep, rfl⟩ := fire_eq_some hf
    have hmid := holds_of_reach hc hreach
    exact (step_sound hmid.shared (hmid.each _) hstep).1.commits_stay ih

theorem committed_body {e : Commit} (he : e ∈ c.shared.commits) :
    ∃ size, IsChunk u₀ e.chunkNumber size ∧ (e.body.length : ℤ) = size ∧
      c.shared.file.HasAt (chunkOffset u₀ e.chunkNumber) e.body := by
  obtain ⟨r, hr⟩ := hc.shared.committed e he
  obtain ⟨hk, -, body, hmem, hlen, hat⟩ := hc.shared.backed _ r hr
  rw [add_sub_cancel_right] at hk hmem hat
  -- one commit per chunk: the body behind the receipt is this one
  have heq : (⟨e.chunkNumber, body⟩ : Commit) = e := inj_on_of_nodup_map hc.shared.once hmem he rfl
  have hbody : body = e.body := congrArg Commit.body heq
  rw [hbody] at hlen hat
  exact ⟨r.size, hk, hlen, hat⟩

theorem staged_bytes_fixed (h : Reach staging free c c')
    {r : UploadSessionPart} (hr : c.shared.parts.get n = some r) {i : ℕ} (hi : (i : ℤ) < r.size) :
    c'.shared.file.byte (chunkOffset u₀ (n - 1) + i) = c.shared.file.byte (chunkOffset u₀ (n - 1) + i) := by
  obtain ⟨hk, -, body, hmem, hlen, hat⟩ := hc.shared.backed n r hr
  obtain ⟨size', -, -, hat'⟩ := committed_body (holds_of_reach hc h) (commits_of_reach hc h hmem)
  rw [hat i (by omega), hat' i (by dsimp only; omega)]

end

/-- The offset of chunk `i`, and the end of the file after the last one. -/
def tileOffset (u : UploadSession) (i : ℕ) : ℕ :=
  if (i : ℤ) < u.totalChunks then chunkOffset u i else u.totalSize.toNat

theorem OffsetSession.empty_of_no_chunks (u : OffsetSession) (h : u.row.totalChunks ≤ 0) : u.row.totalSize = 0 := by
  have hc := u.chunked
  have hs := u.sized
  rw [u.planned] at h
  by_contra hne
  have hone : 1 ≤ (u.row.totalSize + u.row.chunkSize - 1) / u.row.chunkSize := by
    rw [Int.le_ediv_iff_mul_le hc]
    omega
  omega

theorem tileOffset_zero (u : OffsetSession) : tileOffset u.row 0 = 0 := by
  unfold tileOffset
  split_ifs with h
  · simp [chunkOffset]
  · rw [u.empty_of_no_chunks (by push_cast at h; omega)]
    rfl

theorem tileOffset_succ {i : ℕ} (h : IsChunk u i size) {body : List UInt8} (hlen : (body.length : ℤ) = size) :
    tileOffset u (i + 1) = tileOffset u i + body.length := by
  have hsucc := h.offset_succ
  unfold tileOffset
  rw [if_pos h.inRange]
  push_cast
  split_ifs at hsucc ⊢ with hlast
  all_goals omega

/-- **What passes validation**: the file has the announced length and is the concatenation, over
the chunks, of the body of the one PUT that committed the chunk's receipt. -/
theorem validated_content (u : OffsetSession)
    (hc : Holds (Inv u.row) (Role u.row) Apart c) {i : ℕ} {session : UploadSession}
    (hi : c.proc i = .validated session) :
    (c.shared.file.content.length : ℤ) = u.row.totalSize ∧ ∃ body : ℕ → List UInt8,
        (∀ k < u.row.totalChunks.toNat, ⟨k, body k⟩ ∈ c.shared.commits) ∧
        c.shared.file.content = (List.range u.row.totalChunks.toNat).flatMap body := by
  have hknows := (hc.each i).knows
  rw [hi] at hknows
  obtain ⟨-, hall, hlen⟩ := hknows
  have hcommit : ∀ k : ℕ, ∃ b, k < u.row.totalChunks.toNat → ⟨(k : ℤ), b⟩ ∈ c.shared.commits := by
    intro k
    by_cases hk : k < u.row.totalChunks.toNat
    · obtain ⟨r, hr⟩ := hall k (by omega) (by omega)
      obtain ⟨-, -, body, hmem, -⟩ := hc.shared.backed _ r hr
      rw [add_sub_cancel_right] at hmem
      exact ⟨body, fun _ => hmem⟩
    · exact ⟨[], fun h => absurd h hk⟩
  choose body hbody using hcommit
  refine ⟨by simpa using hlen, body, hbody, ?_⟩
  refine ByteFile.content_of_tiles (tileOffset_zero u) (fun k hk => ?_) (fun k hk => ?_) ?_
  · obtain ⟨size, hchunk, hsize, -⟩ := committed_body hc (hbody k hk)
    exact tileOffset_succ hchunk hsize
  · obtain ⟨size, hchunk, -, hat⟩ := committed_body hc (hbody k hk)
    unfold tileOffset
    rw [if_pos hchunk.inRange]
    exact hat
  · unfold tileOffset
    rw [if_neg (by omega)]
    omega

/-- A file of 7 bytes in chunks of 5. -/
def sevenBytes : OffsetSession where
  row :=
    { id := "staging", totalSize := 7, chunkSize := 5, totalChunks := 2, status := .uploading
      sessionKind := .offsetStaging, expiresAt := 100 }
  kind := rfl
  fresh := rfl
  sized := by decide
  chunked := by decide
  planned := by decide

/-- A PUT of chunk 0 is cut off after two bytes, another one with a different body is committed,
chunk 1 follows, and `complete` validates. -/
def cutOffThenCompleted : List (ℕ × Act) :=
  [(0, .put ⟨0, [1, 2, 3, 4, 5], false⟩ 10), (0, .succeed 11), (0, .succeed 12), (0, .piece 2),
    (0, .crash), (1, .put ⟨0, [9, 8, 7, 6, 5], true⟩ 13), (1, .succeed 14), (1, .succeed 15),
    (1, .piece 3), (1, .piece 2), (1, .succeed 16), (1, .succeed 17), (1, .succeed 18),
    (2, .put ⟨1, [4, 3], false⟩ 19), (2, .succeed 20), (2, .succeed 21), (2, .piece 2),
    (2, .succeed 22), (2, .succeed 23), (2, .succeed 24), (3, .complete 25), (3, .succeed 26),
    (3, .succeed 27), (3, .succeed 28)]

end AsterDrive.Upload.OffsetStaging
