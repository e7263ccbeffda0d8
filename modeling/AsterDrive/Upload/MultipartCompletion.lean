import AsterDrive.Lib.SortByKey
import AsterDrive.Upload.Publication

/-!
# MultipartCompletion — complete calls against an unreliable provider

`complete_relay_multipart` and `complete_presigned_multipart`: list the parts, check them and the
quota, complete the multipart upload, look at the object, publish. Every provider call may end with a
`Transient` or `RateLimited` error, with or without having taken effect; the provider itself follows
its contract: completing turns the parts into the object and removes the multipart upload, after
which listings answer `NotFound`.

A call that fails with such an error gives the session back, and the next call starts over with the
listing. `lost_completion` is the sequence in which that no longer works: the completion took effect,
its answer and the look at the object were lost, and the retry fails the session because the parts
are gone. `completion_survives_iff` is the exact condition under which a clean call still succeeds.
A call is taken to end before the lease of its assembly has to be refreshed.
-/

namespace AsterDrive.Upload.MultipartCompletion

open Db List UploadSessionKind

/-! ### The provider -/

/-- A provider call that ended with a retryable error. -/
structure Fault where
  kind : StorageErrorKind
  retryable : kind = .transient ∨ kind = .rateLimited
  message : String
  tookEffect : Bool

def Fault.error (f : Fault) : AsterError := .ofStorage f.kind f.message

/-- The provider calls of one complete call that fail. -/
structure Faults where
  list : Option Fault := none
  complete : Option Fault := none
  metadata : Option Fault := none
  exist : Option Fault := none
  abort : Option Fault := none
  delete : Option Fault := none

/-- A part as the provider keeps it. -/
structure UploadedPart where
  partNumber : ℤ
  etag : String
  data : List UInt8

open UploadedPart

def UploadedPart.name (x : UploadedPart) : ℤ × String := (x.partNumber, x.etag)

/-- The open multipart upload, and the object at the temp key. -/
structure Provider where
  multipart : Option (List UploadedPart)
  object : Option (List UInt8) := none

open Provider

/-- The parts that the request names, in its order. -/
def assemble (uploaded : List UploadedPart) (parts : List (ℤ × String)) : Option (List UInt8) :=
  (parts.mapM fun q => uploaded.find? fun x => x.name = q).map fun xs => xs.flatMap data

namespace Provider

def listUploadedPartDetails (v : Provider) : Option Fault → Except AsterError (List UploadedPart)
  | some fault => .error fault.error
  | none =>
    match v.multipart with
    | some parts => .ok parts
    | none => .error (.ofStorage .notFound "NoSuchUpload")

/-- The effect of completing the multipart upload. -/
def assembled (v : Provider) (parts : List (ℤ × String)) : Except AsterError Provider :=
  match v.multipart with
  | none => .error (.ofStorage .notFound "NoSuchUpload")
  | some uploaded =>
    match assemble uploaded parts with
    | none => .error (.ofStorage .unknown "InvalidPart")
    | some data => .ok { multipart := none, object := some data }

def completeMultipartUpload (v : Provider) (parts : List (ℤ × String)) :
    Option Fault → Except AsterError Unit × Provider
  | some fault =>
    (.error fault.error, if fault.tookEffect then (v.assembled parts).toOption.getD v else v)
  | none =>
    match v.assembled parts with
    | .error e => (.error e, v)
    | .ok v' => (.ok (), v')

/-- The size of the object at the temp key. -/
def metadata (v : Provider) : Option Fault → Except AsterError ℕ
  | some fault => .error fault.error
  | none =>
    match v.object with
    | some data => .ok data.length
    | none => .error (.ofStorage .notFound "NoSuchKey")

def existsObject (v : Provider) : Option Fault → Except AsterError Bool
  | some fault => .error fault.error
  | none => .ok v.object.isSome

/-- Whether a call that may have failed did its work. -/
def done : Option Fault → Bool
  | some fault => fault.tookEffect
  | none => true

def abortMultipartUpload (v : Provider) (fault : Option Fault) : Provider :=
  if done fault then { v with multipart := none } else v

def delete (v : Provider) (fault : Option Fault) : Provider :=
  if done fault then { v with object := none } else v

end Provider

/-! ### The checks before and after completing -/

/-- One round of the loop of `validate_uploaded_part_numbers`. -/
def checkPartNumber (x : ℤ × (ℤ × String) × UploadedPart) : Except AsterError Unit :=
  if x.2.1.1 ≠ x.1 then
    .error (uploadAssemblyError .uploadMissingPart
      ("missing completed part " ++ toString x.1 ++ "; got " ++ toString x.2.1.1))
  else if x.2.2.partNumber ≠ x.1 then
    .error (uploadAssemblyError .uploadMissingPart
      ("missing uploaded part " ++ toString x.1 ++ "; got " ++ toString x.2.2.partNumber))
  else .ok ()

/-- `1..=total_chunks`. -/
def expectedNumbers (s : UploadSession) : List ℤ := (List.range s.totalChunks.toNat).map fun i : ℕ => (i : ℤ) + 1

def validateUploadedPartNumbers (s : UploadSession) (completed : List (ℤ × String))
    (uploaded : List UploadedPart) : Except AsterError Unit :=
  if completed.length ≠ uploaded.length then
    .error (uploadAssemblyError .uploadIncompleteParts
      ("expected " ++ toString completed.length ++ " completed parts, got "
        ++ toString uploaded.length ++ " uploaded parts"))
  else if (completed.length : ℤ) ≠ s.totalChunks then
    .error (uploadAssemblyError .uploadIncompleteParts
      ("expected " ++ toString s.totalChunks ++ " parts, got " ++ toString completed.length))
  else ((expectedNumbers s).zip (completed.zip uploaded)).forM checkPartNumber

/-- One round of `sum_uploaded_part_sizes`; a part has no negative size here. -/
def addPartSize (total : ℕ) (x : UploadedPart) : Except AsterError ℕ :=
  if i64Max < total + x.data.length then
    .error (uploadAssemblyError .uploadTempObjectSizeMismatch "multipart uploaded part size total overflow")
  else .ok (total + x.data.length)

def sumUploadedPartSizes (uploaded : List UploadedPart) : Except AsterError ℕ := uploaded.foldlM addPartSize 0

/-- The comparison at the end of `verify_uploaded_multipart_parts`. -/
def checkTotalSize (s : UploadSession) (actual : ℕ) : Except AsterError ℕ :=
  if (actual : ℤ) ≠ s.totalSize then
    .error (uploadAssemblyError .uploadTempObjectSizeMismatch
      ("multipart size mismatch: declared " ++ toString s.totalSize ++ " but uploaded parts total " ++ toString actual))
  else .ok actual

def verifyUploadedMultipartParts (faults : Faults) (v : Provider) (s : UploadSession)
    (completed : List (ℤ × String)) : Except AsterError ℕ := do
  let listed ← v.listUploadedPartDetails faults.list
  let uploaded := sortByKey partNumber listed
  let _ ← validateUploadedPartNumbers s completed uploaded
  let actual ← sumUploadedPartSizes uploaded
  checkTotalSize s actual

def shouldAbortMultipartAfterPreflightError : AsterError → Bool
  | .storageQuotaExceeded _ => true
  | e => e.payload.apiCode = some .uploadIncompleteParts ∨ e.payload.apiCode = some .uploadMissingPart ∨
      e.payload.apiCode = some .uploadTempObjectSizeMismatch

/-- `ensure_uploaded_object_size`; a wrong object is deleted. -/
def ensureUploadedObjectSize (faults : Faults) (v : Provider) (declared : ℤ) (missing : String) :
    Except AsterError ℕ × Provider :=
  match v.metadata faults.metadata with
  | .error e =>
    match v.existsObject faults.exist with
    | .ok false => (.error (uploadAssemblyError .uploadTempObjectMissing missing), v)
    | .ok true | .error _ => (.error e, v)
  | .ok actual =>
    if (actual : ℤ) ≠ declared then
      (.error (uploadAssemblyError .uploadTempObjectSizeMismatch
        ("size mismatch: declared " ++ toString declared ++ " but uploaded " ++ toString actual)),
        v.delete faults.delete)
    else (.ok actual, v)

/-! ### The complete call -/

/-- What a complete call is made with and what it meets: the parts the client names, its clock at the
check of the row, at the transition and at its end, the database, and the provider's errors. -/
structure Call where
  parts : Option (List (ℤ × String)) := none
  startedAt : ℕ
  claimedAt : ℕ
  finishedAt : ℕ := 0
  etag : String := ""
  db : Db
  faults : Faults := {}

structure State where
  session : UploadSession
  provider : Provider

/-- The result of a call: the file and the database with it, or an error. -/
abbrev Outcome := Except AsterError (File × Db) × State

variable (p : Placement)

/-- `finalize_verified_opaque_upload_session`; the plan of a completed multipart object retains the
object when the transaction fails. -/
def finalizeVerifiedOpaqueUploadSession (c : Call) (tempKey : String) (size : ℕ) (s : State) :
    Outcome :=
  match (Publication.session (.opaqueObject tempKey size)).publish p s.session.id (some s.session)
      c.finishedAt c.etag c.db with
  | .error e => (.error e, s)
  | .ok (f, row, db) => (.ok (f, db), { s with session := row })

def abortAfterPreflightError (c : Call) (e : AsterError) (s : State) : State :=
  if shouldAbortMultipartAfterPreflightError e then
    { s with provider := s.provider.abortMultipartUpload c.faults.abort }
  else s

/-- The end of the assembly after a successful completion. -/
def finishCompleted (c : Call) (tempKey missing : String) (s : State) : Outcome :=
  match ensureUploadedObjectSize c.faults s.provider s.session.totalSize missing with
  | (.error e, v) => (.error e, { s with provider := v })
  | (.ok actual, v) => finalizeVerifiedOpaqueUploadSession p c tempKey actual { s with provider := v }

/-- The end of the assembly after `e`: the provider may have completed and lost the answer, so a
retryable error is followed by a look at the object. -/
def finishAfterError (c : Call) (tempKey missing : String) (e : AsterError) (s : State) : Outcome :=
  if uploadCompletionErrorIsRetryable e then
    match ensureUploadedObjectSize c.faults s.provider s.session.totalSize missing with
    | (.error _, v) => (.error e, { s with provider := v })
    | (.ok actual, v) => finalizeVerifiedOpaqueUploadSession p c tempKey actual { s with provider := v }
  else (.error e, s)

/-- The future that `complete_object_multipart_upload_session` hands to the completion stage. -/
def assembleObject (c : Call) (tempKey missing : String) (completed : List (ℤ × String)) (s : State) :
    Outcome :=
  let completed := sortByKey Prod.fst completed
  match verifyUploadedMultipartParts c.faults s.provider s.session completed with
  | .error e => (.error e, abortAfterPreflightError c e s)
  | .ok size =>
    match checkQuota c.db.usage p.scope.resource size with
    | .error e => (.error e, abortAfterPreflightError c e s)
    | .ok _ =>
      match s.provider.completeMultipartUpload completed c.faults.complete with
      | (.error e, v) => finishAfterError p c tempKey missing e { s with provider := v }
      | (.ok _, v) => finishCompleted p c tempKey missing { s with provider := v }

/-- The end of `run_upload_completion_stage`. -/
def endStage (c : Call) (expected : UploadSessionStatus) : Outcome → Outcome
  | (.ok r, s) => (.ok r, s)
  | (.error e, s) =>
    (.error e, { s with session := handleCompletionError s.session expected e c.finishedAt })

/-- `run_upload_completion_stage`. -/
def runUploadCompletionStage (c : Call) (expected : UploadSessionStatus) (body : State → Outcome)
    (s : State) : Outcome :=
  match transitionUploadSessionToAssembling s.session expected c.claimedAt with
  | .error e => (.error e, s)
  | .ok session => endStage c expected (body { s with session })

def completeObjectMultipartUploadSession (c : Call) (expected : UploadSessionStatus)
    (completed : List (ℤ × String)) (missing : String) (s : State) : Outcome :=
  match s.session.objectTempKey, s.session.objectMultipartId with
  | none, _ => (.error (uploadAssemblyError .uploadSessionCorrupted "missing object_temp_key"), s)
  | some _, none =>
    (.error (uploadAssemblyError .uploadSessionCorrupted "missing object_multipart_id"), s)
  | some tempKey, some _ =>
    runUploadCompletionStage c expected (assembleObject p c tempKey missing completed) s

/-- One round of the loop of `complete_relay_multipart`. -/
def checkPartRow (x : ℤ × UploadSessionPart) : Except AsterError Unit :=
  if x.2.partNumber ≠ x.1 then
    .error (uploadAssemblyError .uploadMissingPart
      ("missing uploaded part " ++ toString x.1 ++ "; got " ++ toString x.2.partNumber))
  else .ok ()

/-- The checks of `complete_relay_multipart` on the part rows. -/
def checkPartRows (s : UploadSession) (rows : List UploadSessionPart) : Except AsterError Unit :=
  if (rows.length : ℤ) ≠ s.totalChunks then
    .error (uploadAssemblyError .uploadIncompleteParts
      ("expected " ++ toString s.totalChunks ++ " parts, got " ++ toString rows.length))
  else ((expectedNumbers s).zip rows).forM checkPartRow

/-- `list_by_upload`: the part rows in the order of their numbers. -/
def listByUpload (parts : Parts) : List UploadSessionPart := sortByKey UploadSessionPart.partNumber parts.rows

def completeRelayMultipart (parts : Parts) (c : Call) (s : State) : Outcome :=
  match checkPartRows s.session (listByUpload parts) with
  | .error e => (.error e, s)
  | .ok _ =>
    completeObjectMultipartUploadSession p c .uploading ((listByUpload parts).map fun r => (r.partNumber, r.etag))
      "uploaded object not found after relay multipart complete - assembly may have failed" s

def completePresignedMultipart (completed : List (ℤ × String)) (c : Call) (s : State) : Outcome :=
  completeObjectMultipartUploadSession p c .presigned completed
    "uploaded object not found after multipart complete - assembly may have failed" s

/-- `find_file_by_session`. -/
def findFileBySession (db : Db) (s : UploadSession) : Except AsterError (File × Db) :=
  match s.fileId with
  | none => .error (uploadAssemblyError .uploadCompletedFileMissing
      "upload already completed but file_id not found; please refresh")
  | some id =>
    match db.files.get id with
    | none => .error (fileNotFound ("file #" ++ toString id))
    | some f => .ok (f, db)

/-- `complete_upload_impl` on a multipart session with the part rows `parts`. -/
def completeUpload (parts : Parts) (c : Call) (s : State) : Outcome :=
  match resolveUploadSessionKind s.session with
  | .error e => (.error e, s)
  | .ok kind =>
    match determineCompletionPlan s.session kind c.parts c.startedAt with
    | .error e => (.error e, s)
    | .ok .returnCompleted => (findFileBySession c.db s.session, s)
    | .ok (.completePresignedMultipart completed) => completePresignedMultipart p completed c s
    | .ok .completeRelayMultipart => completeRelayMultipart p parts c s
    -- the plans of the other kinds
    | .ok _ => (.error (uploadAssemblyError .uploadSessionCorrupted "not a multipart session"), s)

/-- A sequence of complete calls. -/
def runCalls (parts : Parts) (calls : List Call) (s : State) : State :=
  calls.foldl (fun s c => (completeUpload p parts c s).2) s

/-! ### The uploads in question -/

/-- The status from which an upload is completed, and to which it is given back. -/
def liveStatus (kind : UploadSessionKind) : UploadSessionStatus :=
  if kind.isRelayMultipart then .uploading else .presigned

/-- A relay or presigned multipart session whose parts were all uploaded with the declared total size.
`uploaded` has the parts in the order of their numbers; the provider may list them in any order. For a
relay session the part rows name them. -/
structure MultipartUpload where
  row : UploadSession
  place : Placement
  rows : Parts
  uploaded : List UploadedPart
  listing : List UploadedPart
  tempKey : String
  multipartId : String
  key : row.objectTempKey = some tempKey
  id : row.objectMultipartId = some multipartId
  kind : row.sessionKind.expectsMultipartId = true
  status : row.status = liveStatus row.sessionKind
  chunks : 0 ≤ row.totalChunks
  numbered : uploaded.map partNumber = expectedNumbers row
  listed : listing.Perm uploaded
  recorded : row.sessionKind.isRelayMultipart = true →
    (rows.rows.map fun r => (r.partNumber, r.etag)).Perm (uploaded.map name)
  total : (((uploaded.map fun x => x.data.length).sum : ℕ) : ℤ) = row.totalSize
  bounded : row.totalSize ≤ i64Max

namespace MultipartUpload

variable (u : MultipartUpload)

/-- The bytes of the uploaded object. -/
def content : List UInt8 := u.uploaded.flatMap data

/-- Before the first complete call. -/
def start : State where
  session := u.row
  provider := { multipart := some u.listing }

def complete (c : Call) (s : State) : Outcome := completeUpload u.place u.rows c s

/-- The client of a presigned session names the parts it uploaded, in any order. -/
def Presents (c : Call) : Prop :=
  u.row.sessionKind.isRelayMultipart = false → ∃ ps, c.parts = some ps ∧ ps.Perm (u.uploaded.map name)

/-- The quota check of the call passes. -/
def QuotaAdmits (c : Call) : Prop := checkQuota c.db.usage u.place.scope.resource u.content.length = .ok ()

/-- No provider call of `c` fails, and no database call does. -/
structure Clean (c : Call) : Prop where
  faults : c.faults = {}
  quota : u.QuotaAdmits c
  publishes : ∃ r, (Publication.session (.opaqueObject u.tempKey u.content.length)).write u.place
    u.row.id c.finishedAt c.etag c.db = .ok r

/-- No blob has the key that is made of this session's id. -/
def KeyFree (db : Db) : Prop := ∀ x ∈ db.blobs.rows, x.hash ≠ opaqueUploadFileHash u.place u.row.id

/-- The call returned a file whose blob is the uploaded object. -/
def ReturnsObject (out : Outcome) : Prop :=
  ∃ f db b, out.1 = .ok (f, db) ∧ f ∈ db.files.rows ∧ f.size = u.content.length ∧
    db.blobs.get f.blobId = some b ∧ b.storagePath = some u.tempKey ∧
    out.2.provider.object = some u.content

end MultipartUpload

/-- `complete_multipart_upload` does its work in this call, provided it is reached. -/
def Call.completes (c : Call) : Prop := done c.faults.complete = true

/-- The call gets its part listing, and then its completion takes effect or the quota refuses it. -/
def MultipartUpload.Spoils (u : MultipartUpload) (c : Call) : Prop :=
  c.faults.list = none ∧ (c.completes ∨ ¬ u.QuotaAdmits c)

/-! ### The preflight of a complete upload -/

section Preflight

variable (u : MultipartUpload)

theorem MultipartUpload.ascending : u.uploaded.Pairwise fun a b => a.partNumber < b.partNumber := by
  have hnum : (u.uploaded.map partNumber).Pairwise (· < ·) := by
    rw [u.numbered]
    unfold expectedNumbers
    rw [pairwise_map]
    refine List.pairwise_lt_range.imp ?_
    intro a b hab
    omega
  rwa [pairwise_map] at hnum

theorem MultipartUpload.namesAscending : (u.uploaded.map name).Pairwise fun a b => a.1 < b.1 := by
  rw [pairwise_map]
  exact u.ascending

theorem MultipartUpload.sortedNames {ps : List (ℤ × String)} (h : ps.Perm (u.uploaded.map name)) :
    sortByKey Prod.fst ps = u.uploaded.map name :=
  sortByKey_eq h u.namesAscending

theorem MultipartUpload.listedRows (h : u.row.sessionKind.isRelayMultipart = true) :
    (listByUpload u.rows).map (fun r => (r.partNumber, r.etag)) = u.uploaded.map name := by
  have hsorted : ((listByUpload u.rows).map fun r => (r.partNumber, r.etag)).Pairwise fun a b => a.1 ≤ b.1 := by
    rw [pairwise_map]
    exact sortByKey_pairwise _ _
  exact eq_of_ascending (((sortByKey_perm _ u.rows.rows).map _).trans (u.recorded h)) hsorted u.namesAscending

theorem length_uploaded : (u.uploaded.length : ℤ) = u.row.totalChunks := by
  have hlen := congrArg List.length u.numbered
  have hchunks := u.chunks
  unfold expectedNumbers at hlen
  rw [length_map, length_map, length_range] at hlen
  omega

theorem length_content : (u.content.length : ℤ) = u.row.totalSize := by
  rw [← u.total]
  unfold MultipartUpload.content
  rw [length_flatMap]

variable {s : UploadSession}

theorem checkPartRows_ok (h : u.row.sessionKind.isRelayMultipart = true) (hs : s.totalChunks = u.row.totalChunks) :
    checkPartRows s (listByUpload u.rows) = .ok () := by
  have hrows := u.listedRows h
  have hlen : (listByUpload u.rows).length = u.uploaded.length := by
    simpa using congrArg List.length hrows
  unfold checkPartRows
  rw [if_neg (by rw [not_not, hlen, hs, length_uploaded])]
  have hnum : (listByUpload u.rows).map UploadSessionPart.partNumber = expectedNumbers s := by
    have hfst := congrArg (List.map Prod.fst) hrows
    rw [map_map, map_map] at hfst
    unfold expectedNumbers
    rw [hs]
    exact hfst.trans u.numbered
  rw [← hnum, forM_ok_iff]
  intro x hx
  rw [← map_id (listByUpload u.rows), map_map, zip_map'] at hx
  obtain ⟨r, _, rfl⟩ := mem_map.mp hx
  unfold checkPartRow
  simp

theorem validate_ok (hs : s.totalChunks = u.row.totalChunks) :
    validateUploadedPartNumbers s (u.uploaded.map name) u.uploaded = .ok () := by
  unfold validateUploadedPartNumbers
  rw [if_neg (by simp), if_neg (by rw [not_not, length_map, hs, length_uploaded])]
  have hnum : expectedNumbers s = u.uploaded.map partNumber := by
    rw [u.numbered]
    unfold expectedNumbers
    rw [hs]
  rw [hnum, forM_ok_iff]
  intro x hx
  -- the three lists run in step
  have hzip : (u.uploaded.map partNumber).zip ((u.uploaded.map name).zip u.uploaded) =
        u.uploaded.map fun x => (x.partNumber, x.name, x) := by
    have hinner : (u.uploaded.map name).zip u.uploaded = u.uploaded.map fun x => (x.name, x) := by
      nth_rewrite 2 [← map_id u.uploaded]
      rw [zip_map']
      rfl
    rw [hinner, zip_map']
  rw [hzip] at hx
  obtain ⟨y, _, rfl⟩ := mem_map.mp hx
  unfold checkPartNumber
  simp [name]

theorem foldlM_addPartSize {l : List UploadedPart} {acc : ℕ} (h : acc + (l.map fun x => x.data.length).sum ≤ i64Max) :
    l.foldlM addPartSize acc = .ok (acc + (l.map fun x => x.data.length).sum) := by
  induction l generalizing acc with
  | nil => rfl
  | cons x l ih =>
    rw [map_cons, sum_cons] at h ⊢
    have hstep : addPartSize acc x = .ok (acc + x.data.length) := by
      unfold addPartSize
      rw [if_neg (by omega)]
    rw [foldlM_cons, hstep]
    show l.foldlM addPartSize (acc + x.data.length) = _
    rw [ih (by omega), add_assoc]

/-- With its parts still there, and without a fault, the preflight finds the declared size. -/
theorem verify_ok {faults : Faults} {v : Provider} (hf : faults.list = none)
    (hv : v.multipart = some u.listing) (hchunks : s.totalChunks = u.row.totalChunks)
    (htotal : s.totalSize = u.row.totalSize) :
    verifyUploadedMultipartParts faults v s (u.uploaded.map name) = .ok u.content.length := by
  have hlist : v.listUploadedPartDetails faults.list = .ok u.listing := by
    rw [hf]
    unfold listUploadedPartDetails
    rw [hv]
  have hsort : sortByKey partNumber u.listing = u.uploaded := sortByKey_eq u.listed u.ascending
  have hlen := length_content u
  have hsum : sumUploadedPartSizes u.uploaded = .ok u.content.length := by
    have hfits : 0 + (u.uploaded.map fun x => x.data.length).sum ≤ i64Max := by
      have htotal := u.total
      have hbound := u.bounded
      omega
    have hfold := foldlM_addPartSize hfits
    unfold sumUploadedPartSizes
    rw [hfold]
    unfold MultipartUpload.content
    rw [length_flatMap, zero_add]
  have hsize : checkTotalSize s u.content.length = .ok u.content.length := by
    unfold checkTotalSize
    rw [if_neg (by rw [not_not, htotal, hlen])]
  unfold verifyUploadedMultipartParts
  rw [bind_ok_iff]
  refine ⟨u.listing, hlist, ?_⟩
  rw [hsort, bind_ok_iff]
  refine ⟨(), validate_ok u hchunks, ?_⟩
  rw [bind_ok_iff]
  exact ⟨u.content.length, hsum, hsize⟩

theorem assembled_ok {v : Provider} (hv : v.multipart = some u.listing) :
    v.assembled (u.uploaded.map name) = .ok { multipart := none, object := some u.content } := by
  have hnodup : (u.uploaded.map partNumber).Nodup := by
    unfold List.Nodup
    rw [pairwise_map]
    exact u.ascending.imp fun h => ne_of_lt h
  have hinj : ∀ x ∈ u.listing, ∀ y ∈ u.listing, x.name = y.name → x = y := by
    intro x hx y hy hxy
    exact inj_on_of_nodup_map hnodup (u.listed.subset hx) (u.listed.subset hy) (congrArg Prod.fst hxy)
  have hassemble : assemble u.listing (u.uploaded.map name) = some u.content := by
    unfold assemble
    rw [mapM_find (fun x hx => u.listed.symm.subset hx) hinj]
    rfl
  unfold assembled
  rw [hv]
  dsimp only
  rw [hassemble]

end Preflight

/-! ### What one call does -/

/-- The session and the provider as they were before the first call, `updated_at` apart. -/
structure Fresh (u : MultipartUpload) (s : State) : Prop where
  session : ∃ t, s.session = { u.row with updatedAt := t }
  provider : s.provider = { multipart := some u.listing }

/-- The parts are gone, or the session has ended. -/
def Spoiled (s : State) : Prop :=
  s.session.status = .completed ∨ s.session.status = .failed ∨ s.provider.multipart = none

section Calls

variable {p} {parts : Parts} {c : Call} {s s' : State} {tempKey missing : String}
  {completed : List (ℤ × String)} {expected : UploadSessionStatus} {e : AsterError}

theorem Fault.retryable_error (fault : Fault) : uploadCompletionErrorIsRetryable fault.error = true := by
  unfold Fault.error
  rcases fault.retryable with h | h
  all_goals
    rw [h]
    rfl

theorem ensure_multipart {faults : Faults} {v : Provider} {declared : ℤ} :
    (ensureUploadedObjectSize faults v declared missing).2.multipart = v.multipart := by
  unfold ensureUploadedObjectSize
  split
  · split <;> rfl
  · split_ifs
    · unfold delete
      split_ifs <;> rfl
    · rfl

theorem finalize_provider {size : ℕ} :
    (finalizeVerifiedOpaqueUploadSession p c tempKey size s).2.provider = s.provider := by
  unfold finalizeVerifiedOpaqueUploadSession
  split <;> rfl

theorem finishCompleted_multipart :
    (finishCompleted p c tempKey missing s).2.provider.multipart = s.provider.multipart := by
  have hens : (ensureUploadedObjectSize c.faults s.provider s.session.totalSize missing).2.multipart =
      s.provider.multipart := ensure_multipart
  unfold finishCompleted
  split
  · rename_i e v hv
    rw [hv] at hens
    exact hens
  · rename_i actual v hv
    rw [hv] at hens
    rw [finalize_provider]
    exact hens

theorem finishAfterError_multipart :
    (finishAfterError p c tempKey missing e s).2.provider.multipart = s.provider.multipart := by
  have hens : (ensureUploadedObjectSize c.faults s.provider s.session.totalSize missing).2.multipart =
      s.provider.multipart := ensure_multipart
  unfold finishAfterError
  split_ifs
  · split
    · rename_i e' v hv
      rw [hv] at hens
      exact hens
    · rename_i actual v hv
      rw [hv] at hens
      rw [finalize_provider]
      exact hens
  · rfl

theorem abortAfter_multipart (h : s.provider.multipart = none) :
    (abortAfterPreflightError c e s).provider.multipart = none := by
  unfold abortAfterPreflightError
  split_ifs
  · unfold abortMultipartUpload
    split_ifs
    · rfl
    · exact h
  · exact h

theorem verify_gone {faults : Faults} {v : Provider} {u : UploadSession}
    (h : v.multipart = none) : ∃ e, verifyUploadedMultipartParts faults v u completed = .error e := by
  have hlist : ∃ e, v.listUploadedPartDetails faults.list = .error e := by
    rcases faults.list with _ | fault
    · unfold listUploadedPartDetails
      rw [h]
      exact ⟨_, rfl⟩
    · exact ⟨_, rfl⟩
  obtain ⟨e, he⟩ := hlist
  unfold verifyUploadedMultipartParts
  rw [he]
  exact ⟨e, rfl⟩

theorem endStage_provider {out : Outcome} : (endStage c expected out).2.provider = out.2.provider := by
  rcases out with ⟨_ | r, s'⟩ <;> rfl

theorem endStage_error {out : Outcome} (h : out.1 = .error e) : (endStage c expected out).1 = .error e := by
  rcases out with ⟨_ | r, s'⟩
  · exact h
  · simp at h

theorem assembleObject_gone (h : s.provider.multipart = none) :
    (∃ e, (assembleObject p c tempKey missing completed s).1 = .error e) ∧
      (assembleObject p c tempKey missing completed s).2.provider.multipart = none := by
  obtain ⟨e, he⟩ : ∃ e, verifyUploadedMultipartParts c.faults s.provider s.session
      (sortByKey Prod.fst completed) = .error e := verify_gone h
  unfold assembleObject
  dsimp only
  rw [he]
  exact ⟨⟨e, rfl⟩, abortAfter_multipart h⟩

theorem completeObject_gone (h : s.provider.multipart = none) :
    (∃ e, (completeObjectMultipartUploadSession p c expected completed missing s).1 = .error e) ∧
      (completeObjectMultipartUploadSession p c expected completed missing s).2.provider.multipart =
        none := by
  unfold completeObjectMultipartUploadSession
  split
  · exact ⟨⟨_, rfl⟩, h⟩
  · exact ⟨⟨_, rfl⟩, h⟩
  · unfold runUploadCompletionStage
    split
    · exact ⟨⟨_, rfl⟩, h⟩
    · rename_i session _
      obtain ⟨⟨e, he⟩, hgone⟩ := assembleObject_gone (s := { s with session }) h
      refine ⟨⟨e, endStage_error he⟩, ?_⟩
      rw [endStage_provider]
      exact hgone

/-- **A spoiled session stays spoiled**, and unless it is completed every call fails. -/
theorem call_spoiled (h : Spoiled s) : Spoiled (completeUpload p parts c s).2 ∧
      (s.session.status ≠ .completed → ∃ e, (completeUpload p parts c s).1 = .error e) := by
  unfold completeUpload
  split
  · exact ⟨h, fun _ => ⟨_, rfl⟩⟩
  split
  · exact ⟨h, fun _ => ⟨_, rfl⟩⟩
  · rename_i hplan
    have hcomp := (determineCompletionPlan_returnCompleted hplan)
    exact ⟨h, fun hne => absurd hcomp hne⟩
  · rename_i ps hplan
    obtain ⟨hcomp, hfail, _⟩ := determineCompletionPlan_live hplan (by simp)
    have hgone : s.provider.multipart = none := by
      rcases h with h | h | h
      · exact absurd h hcomp
      · exact absurd h hfail
      · exact h
    obtain ⟨herr, hgone'⟩ := completeObject_gone hgone
    exact ⟨.inr (.inr hgone'), fun _ => herr⟩
  · rename_i hplan
    obtain ⟨hcomp, hfail, _⟩ := determineCompletionPlan_live hplan (by simp)
    have hgone : s.provider.multipart = none := by
      rcases h with h | h | h
      · exact absurd h hcomp
      · exact absurd h hfail
      · exact h
    unfold completeRelayMultipart
    split
    · exact ⟨h, fun _ => ⟨_, rfl⟩⟩
    · obtain ⟨herr, hgone'⟩ := completeObject_gone hgone
      exact ⟨.inr (.inr hgone'), fun _ => herr⟩
  · exact ⟨h, fun _ => ⟨_, rfl⟩⟩

end Calls

section FreshCalls

variable {u : MultipartUpload} {c : Call} {s : State}

/-- The session while it is assembled. -/
def MultipartUpload.assembling (u : MultipartUpload) (now : ℕ) : UploadSession :=
  { u.row with status := .assembling, updatedAt := now }

theorem resolve_fresh (h : Fresh u s) : resolveUploadSessionKind s.session = .ok u.row.sessionKind := by
  obtain ⟨t, ht⟩ := h.session
  have hkind := u.kind
  unfold resolveUploadSessionKind
  rw [ht]
  rw [u.key, u.id, hkind]
  have htemp : u.row.sessionKind.expectsTempKey = true := by
    cases hk : u.row.sessionKind <;> rw [hk] at hkind <;> simp_all [expectsTempKey, expectsMultipartId]
  rw [htemp]
  simp

theorem live_ne (kind : UploadSessionKind) :
    liveStatus kind ≠ .completed ∧ liveStatus kind ≠ .assembling ∧ liveStatus kind ≠ .failed := by
  unfold liveStatus
  split_ifs <;> simp

theorem plan_fresh (h : Fresh u s) (hstart : c.startedAt < u.row.expiresAt) :
    determineCompletionPlan s.session u.row.sessionKind c.parts c.startedAt =
      planOfKind s.session u.row.sessionKind c.parts := by
  obtain ⟨t, ht⟩ := h.session
  obtain ⟨hcomp, hasm, hfail⟩ := live_ne u.row.sessionKind
  have hstatus : s.session.status = liveStatus u.row.sessionKind := by
    rw [ht]
    exact u.status
  have hexp : ¬ s.session.expiresAt ≤ c.startedAt := by
    rw [ht]
    exact Nat.not_le_of_lt hstart
  unfold determineCompletionPlan
  rw [hstatus, if_neg hcomp, if_neg hasm, if_neg hexp, if_neg hfail]

theorem stage_fresh (h : Fresh u s) (hclaim : c.claimedAt < u.row.expiresAt) {body : State → Outcome} :
    runUploadCompletionStage c (liveStatus u.row.sessionKind) body s = endStage c (liveStatus u.row.sessionKind)
        (body { s with session := u.assembling c.claimedAt }) := by
  obtain ⟨t, ht⟩ := h.session
  have hclaimed : transitionUploadSessionToAssembling s.session (liveStatus u.row.sessionKind)
      c.claimedAt = .ok (u.assembling c.claimedAt) := by
    unfold transitionUploadSessionToAssembling UploadSession.tryTransitionStatusBeforeExpiry
    rw [ht, if_pos ⟨u.status, hclaim⟩]
    rfl
  unfold runUploadCompletionStage
  rw [hclaimed]

theorem object_fresh (h : Fresh u s) (hclaim : c.claimedAt < u.row.expiresAt) (missing : String)
    (completed : List (ℤ × String)) :
    completeObjectMultipartUploadSession u.place c (liveStatus u.row.sessionKind) completed missing s =
      endStage c (liveStatus u.row.sessionKind) (assembleObject u.place c u.tempKey missing completed
          { s with session := u.assembling c.claimedAt }) := by
  obtain ⟨t, ht⟩ := h.session
  have hkey : s.session.objectTempKey = some u.tempKey := by
    rw [ht]
    exact u.key
  have hid : s.session.objectMultipartId = some u.multipartId := by
    rw [ht]
    exact u.id
  unfold completeObjectMultipartUploadSession
  rw [hkey, hid]
  exact stage_fresh h hclaim

theorem complete_fresh (h : Fresh u s) (hpres : u.Presents c)
    (hstart : c.startedAt < u.row.expiresAt) (hclaim : c.claimedAt < u.row.expiresAt) :
    ∃ missing completed, sortByKey Prod.fst completed = u.uploaded.map name ∧
      u.complete c s = endStage c (liveStatus u.row.sessionKind) (assembleObject u.place c u.tempKey missing completed
          { s with session := u.assembling c.claimedAt }) := by
  have hobject := object_fresh h hclaim
  have hchunks : s.session.totalChunks = u.row.totalChunks := by
    obtain ⟨t, ht⟩ := h.session
    rw [ht]
  unfold MultipartUpload.complete completeUpload
  rw [resolve_fresh h]
  dsimp only
  rw [plan_fresh h hstart]
  by_cases hrelay : u.row.sessionKind.isRelayMultipart = true
  · have hplan : planOfKind s.session u.row.sessionKind c.parts = .ok .completeRelayMultipart := by
      cases hk : u.row.sessionKind <;> rw [hk] at hrelay <;>
        simp_all [isRelayMultipart, planOfKind]
    have hlive : liveStatus u.row.sessionKind = .uploading := if_pos hrelay
    rw [hlive] at hobject ⊢
    rw [hplan]
    unfold completeRelayMultipart
    rw [checkPartRows_ok u hrelay hchunks]
    refine ⟨_, _, ?_, hobject _ _⟩
    rw [u.listedRows hrelay]
    exact u.sortedNames (List.Perm.refl _)
  · obtain ⟨ps, hps, hperm⟩ := hpres (Bool.eq_false_iff.mpr hrelay)
    have hplan : planOfKind s.session u.row.sessionKind c.parts = .ok (.completePresignedMultipart ps) := by
      have hkind := u.kind
      cases hk : u.row.sessionKind <;> rw [hk] at hrelay hkind <;>
        simp_all [isRelayMultipart, expectsMultipartId, planOfKind]
    have hlive : liveStatus u.row.sessionKind = .presigned := if_neg hrelay
    rw [hlive] at hobject ⊢
    rw [hplan]
    exact ⟨_, ps, u.sortedNames hperm, hobject _ _⟩

variable {e : AsterError} {v : Provider}

theorem endStage_retryable {now : ℕ}
    (he : uploadCompletionErrorIsRetryable e = true) (hv : v = { multipart := some u.listing }) :
    Fresh u (endStage c (liveStatus u.row.sessionKind) (.error e, ⟨u.assembling now, v⟩)).2 := by
  refine ⟨⟨c.finishedAt, ?_⟩, hv⟩
  show handleCompletionError (u.assembling now) (liveStatus u.row.sessionKind) e c.finishedAt = _
  have hstatus : (u.assembling now).status = .assembling := rfl
  unfold handleCompletionError UploadSession.restoreStatus UploadSession.tryTransitionStatus
  rw [if_pos he, if_pos hstatus, Option.getD_some, ← u.status]
  rfl

theorem endStage_failed {expected : UploadSessionStatus} (he : uploadCompletionErrorIsRetryable e = false) :
    (endStage c expected (.error e, s)).2.session.status = .failed := by
  show (handleCompletionError s.session expected e c.finishedAt).status = _
  unfold handleCompletionError
  rw [he]
  rfl

theorem quota_not_retryable {t : Usage} {w : WorkspaceResourceScope} {n : ℤ}
    (h : checkQuota t w n = .error e) : uploadCompletionErrorIsRetryable e = false := by
  unfold checkQuota at h
  split at h
  · rw [← Except.error.inj h]
    rfl
  · split_ifs at h
    all_goals
      rw [← Except.error.inj h]
      rfl

theorem ensure_missing {faults : Faults} {declared : ℤ} {missing : String} (hv : v.object = none) :
    ∃ e, ensureUploadedObjectSize faults v declared missing = (.error e, v) := by
  have hmeta : ∃ e, v.metadata faults.metadata = .error e := by
    rcases faults.metadata with _ | fault
    · unfold metadata
      rw [hv]
      exact ⟨_, rfl⟩
    · exact ⟨_, rfl⟩
  obtain ⟨e, he⟩ := hmeta
  unfold ensureUploadedObjectSize
  rw [he]
  dsimp only
  split
  all_goals exact ⟨_, rfl⟩

theorem done_eq_false {fault : Option Fault} (h : ¬ done fault = true) :
    ∃ f, fault = some f ∧ f.tookEffect = false := by
  cases fault with
  | none => exact absurd rfl h
  | some f => exact ⟨f, rfl, Bool.eq_false_iff.mpr h⟩

theorem complete_done {fault : Option Fault} (hv : v.multipart = some u.listing) (h : done fault = true) :
    (v.completeMultipartUpload (u.uploaded.map name) fault).2 = { multipart := none, object := some u.content } := by
  have hdone := assembled_ok u hv
  cases fault with
  | none =>
    unfold completeMultipartUpload
    rw [hdone]
  | some f =>
    have heff : f.tookEffect = true := h
    unfold completeMultipartUpload
    dsimp only
    rw [hdone, if_pos heff]
    rfl

theorem complete_undone {f : Fault} {completed : List (ℤ × String)} (h : f.tookEffect = false) :
    v.completeMultipartUpload completed (some f) = (.error f.error, v) := by
  unfold completeMultipartUpload
  dsimp only
  rw [if_neg (by simp [h])]

/-- **A call that spoils nothing gives the session back.** -/
theorem call_keeps (h : Fresh u s) (hpres : u.Presents c) (hstart : c.startedAt < u.row.expiresAt)
    (hclaim : c.claimedAt < u.row.expiresAt) (hspoils : ¬ u.Spoils c) :
    Fresh u (u.complete c s).2 := by
  obtain ⟨missing, completed, hsorted, heq⟩ := complete_fresh h hpres hstart hclaim
  rw [heq]
  unfold assembleObject
  dsimp only
  rw [hsorted]
  rcases hlist : c.faults.list with _ | fault
  · -- the listing succeeds, so the quota admits and the completion does nothing
    have hmulti : s.provider.multipart = some u.listing := by rw [h.provider]
    have hquota : u.QuotaAdmits c := by
      by_contra hquota
      exact hspoils ⟨hlist, .inr hquota⟩
    obtain ⟨f, hf, heff⟩ := done_eq_false fun hdone => hspoils ⟨hlist, .inl hdone⟩
    rw [verify_ok u (s := u.assembling c.claimedAt) hlist hmulti rfl rfl]
    dsimp only
    rw [hquota]
    rw [hf, complete_undone heff]
    dsimp only
    unfold finishAfterError
    rw [if_pos f.retryable_error]
    have hnone : s.provider.object = none := by rw [h.provider]
    obtain ⟨e, he⟩ : ∃ e, ensureUploadedObjectSize c.faults s.provider u.row.totalSize missing =
        (.error e, s.provider) := ensure_missing hnone
    show Fresh u (endStage c _ (match ensureUploadedObjectSize c.faults s.provider
      u.row.totalSize missing with | (.error _, v) => _ | (.ok actual, v) => _)).2
    rw [he]
    exact endStage_retryable f.retryable_error h.provider
  · have hverify : verifyUploadedMultipartParts c.faults s.provider (u.assembling c.claimedAt)
        (u.uploaded.map name) = .error fault.error := by
      unfold verifyUploadedMultipartParts
      rw [hlist]
      rfl
    rw [hverify]
    exact endStage_retryable fault.retryable_error h.provider

theorem call_spoils (h : Fresh u s) (hpres : u.Presents c) (hstart : c.startedAt < u.row.expiresAt)
    (hclaim : c.claimedAt < u.row.expiresAt) (hspoils : u.Spoils c) :
    Spoiled (u.complete c s).2 := by
  obtain ⟨missing, completed, hsorted, heq⟩ := complete_fresh h hpres hstart hclaim
  obtain ⟨hlist, hwhy⟩ := hspoils
  have hmulti : s.provider.multipart = some u.listing := by rw [h.provider]
  rw [heq]
  unfold assembleObject
  dsimp only
  rw [hsorted, verify_ok u (s := u.assembling c.claimedAt) hlist hmulti rfl rfl]
  dsimp only
  rcases hquota : checkQuota c.db.usage u.place.scope.resource u.content.length with e | ⟨⟩
  · right
    left
    exact endStage_failed (quota_not_retryable hquota)
  · have hdone : done c.faults.complete = true := by
      rcases hwhy with hdone | hno
      · exact hdone
      · exact absurd hquota hno
    have hafter := complete_done (u := u) hmulti hdone
    right
    right
    dsimp only
    split
    · rename_i e v hv
      rw [hv] at hafter
      rw [endStage_provider, finishAfterError_multipart]
      exact congrArg multipart hafter
    · rename_i v hv
      rw [hv] at hafter
      rw [endStage_provider, finishCompleted_multipart]
      exact congrArg multipart hafter

theorem ensure_content {faults : Faults} {missing : String}
    (hf : faults.metadata = none) (hv : v.object = some u.content) :
    ensureUploadedObjectSize faults v u.row.totalSize missing = (.ok u.content.length, v) := by
  have hmeta : v.metadata faults.metadata = .ok u.content.length := by
    rw [hf]
    unfold metadata
    rw [hv]
  unfold ensureUploadedObjectSize
  rw [hmeta]
  dsimp only
  rw [if_neg (by rw [not_not, length_content])]

/-- **A clean call on a session that was given back returns the object.** -/
theorem call_clean (h : Fresh u s) (hpres : u.Presents c) (hstart : c.startedAt < u.row.expiresAt)
    (hclaim : c.claimedAt < u.row.expiresAt) (hclean : u.Clean c) (hkey : u.KeyFree c.db) :
    u.ReturnsObject (u.complete c s) := by
  obtain ⟨missing, completed, hsorted, heq⟩ := complete_fresh h hpres hstart hclaim
  obtain ⟨⟨f, db⟩, hwrite⟩ := hclean.publishes
  have hfaults := hclean.faults
  have hmulti : s.provider.multipart = some u.listing := by rw [h.provider]
  have hcomplete : s.provider.completeMultipartUpload (u.uploaded.map name) none =
      (.ok (), { multipart := none, object := some u.content }) := by
    unfold completeMultipartUpload
    rw [assembled_ok u hmulti]
  have hpublish : (Publication.session (.opaqueObject u.tempKey u.content.length)).publish u.place
      u.row.id (some (u.assembling c.claimedAt)) c.finishedAt c.etag c.db =
        .ok (f, { u.row with status := .completed, fileId := some f.id, updatedAt := c.finishedAt }, db) := by
    unfold Publication.publish
    rw [hwrite]
    rfl
  have hresult : u.complete c s = (.ok (f, db),
      ⟨{ u.row with status := .completed, fileId := some f.id, updatedAt := c.finishedAt },
        { multipart := none, object := some u.content }⟩) := by
    rw [heq]
    unfold assembleObject
    dsimp only
    rw [hsorted, verify_ok u (s := u.assembling c.claimedAt) (by rw [hfaults]) hmulti rfl rfl]
    dsimp only
    rw [hclean.quota]
    rw [hfaults, hcomplete]
    show endStage c _ (match ensureUploadedObjectSize c.faults
      { multipart := none, object := some u.content } u.row.totalSize missing with
      | (.error e, v) => _ | (.ok actual, v) => _) = _
    rw [ensure_content (by rw [hfaults]) rfl]
    show endStage c _ (match (Publication.session (.opaqueObject u.tempKey u.content.length)).publish
      u.place u.row.id (some (u.assembling c.claimedAt)) c.finishedAt c.etag c.db with
      | .error e => _ | .ok (f, row, db) => _) = _
    rw [hpublish]
    rfl
  obtain ⟨b, hpub, hrow⟩ := Publication.write_session_ok hwrite
  obtain ⟨hpath, hsize⟩ : b.storagePath = some u.tempKey ∧ b.size = u.content.length := by
    cases hrow with
    | adopted x hx _ _ hhash _ =>
      exact absurd (Option.some.inj hhash).symm (hkey x (Table.mem_of_get hx))
    | inserted _ hpath hsize => exact ⟨hpath, hsize⟩
  rw [hresult]
  refine ⟨f, db, b, rfl, ?_, hpub.size.trans hsize, ?_, hpath, rfl⟩
  · rw [hpub.rows]
    exact mem_append_right _ (mem_singleton_self f)
  · rw [hpub.blobId]
    exact hpub.blobs.get

end FreshCalls

/-! ### Sequences of calls -/

section Sequences

variable {u : MultipartUpload} {calls : List Call} {last : Call}

/-- The calls name the uploaded parts and are made before expiry. -/
def MultipartUpload.Timely (u : MultipartUpload) (c : Call) : Prop :=
  u.Presents c ∧ c.startedAt < u.row.expiresAt ∧ c.claimedAt < u.row.expiresAt

theorem runCalls_spoiled (calls : List Call) {s : State} (h : Spoiled s) :
    Spoiled (runCalls u.place u.rows calls s) := by
  induction calls generalizing s with
  | nil => exact h
  | cons c calls ih => exact ih (call_spoiled h).1

theorem runCalls_fresh {s : State} (h : Fresh u s) (htimely : ∀ c ∈ calls, u.Timely c) :
    ((∀ c ∈ calls, ¬ u.Spoils c) → Fresh u (runCalls u.place u.rows calls s)) ∧
      ((∃ c ∈ calls, u.Spoils c) → Spoiled (runCalls u.place u.rows calls s)) := by
  induction calls generalizing s with
  | nil => exact ⟨fun _ => h, fun ⟨_, hc, _⟩ => absurd hc not_mem_nil⟩
  | cons c calls ih =>
    obtain ⟨hpres, hstart, hclaim⟩ := htimely c mem_cons_self
    have hrest : ∀ c ∈ calls, u.Timely c := fun c' hc' => htimely c' (mem_cons_of_mem _ hc')
    by_cases hspoils : u.Spoils c
    · have hafter : Spoiled (runCalls u.place u.rows (c :: calls) s) :=
        runCalls_spoiled calls (call_spoils h hpres hstart hclaim hspoils)
      exact ⟨fun hno => absurd hspoils (hno c mem_cons_self), fun _ => hafter⟩
    · obtain ⟨hkeeps, hbreaks⟩ := ih (call_keeps h hpres hstart hclaim hspoils) hrest
      refine ⟨fun hno => hkeeps fun c' hc' => hno c' (mem_cons_of_mem _ hc'), ?_⟩
      rintro ⟨c', hc', hspoils'⟩
      rcases mem_cons.mp hc' with rfl | hc'
      · exact absurd hspoils' hspoils
      · exact hbreaks ⟨c', hc', hspoils'⟩

theorem start_fresh (u : MultipartUpload) : Fresh u u.start := ⟨⟨u.row.updatedAt, rfl⟩, rfl⟩

/-- **Completion survives retryable provider errors exactly as long as no earlier call used up the
parts.** After any sequence of complete calls that leaves the session not `Completed`, a clean call
before expiry returns the uploaded object if and only if, in every earlier call that got its part
listing, the quota admitted the upload and `complete_multipart_upload` did not take effect. -/
theorem completion_survives_iff (u : MultipartUpload) (calls : List Call) (last : Call)
    (hpresents : ∀ c ∈ calls, u.Presents c) (hlast : u.Presents last)
    (horder : ∀ c ∈ calls, c.startedAt ≤ last.startedAt ∧ c.claimedAt ≤ last.startedAt)
    (hexpiry : last.startedAt ≤ last.claimedAt ∧ last.claimedAt < u.row.expiresAt)
    (hclean : u.Clean last) (hkey : u.KeyFree last.db)
    (hopen : (runCalls u.place u.rows calls u.start).session.status ≠ .completed) :
    u.ReturnsObject (u.complete last (runCalls u.place u.rows calls u.start)) ↔
      ∀ c ∈ calls, c.faults.list = none → u.QuotaAdmits c ∧ ¬ c.completes := by
  have htimely : ∀ c ∈ calls, u.Timely c := by
    intro c hc
    obtain ⟨hstart, hclaim⟩ := horder c hc
    exact ⟨hpresents c hc, by omega, by omega⟩
  obtain ⟨hkeeps, hbreaks⟩ := runCalls_fresh (start_fresh u) htimely
  constructor
  · intro hreturns c hc hlist
    by_contra hbad
    have hspoils : u.Spoils c := by
      refine ⟨hlist, ?_⟩
      by_cases hcompletes : c.completes
      · exact .inl hcompletes
      · exact .inr fun hquota => hbad ⟨hquota, hcompletes⟩
    obtain ⟨e, he⟩ : ∃ e, (completeUpload u.place u.rows last (runCalls u.place u.rows calls u.start)).1 = .error e :=
      (call_spoiled (hbreaks ⟨c, hc, hspoils⟩)).2 hopen
    obtain ⟨f, db, b, hok, _⟩ := hreturns
    unfold MultipartUpload.complete at hok
    rw [he] at hok
    simp at hok
  · intro hgood
    have hfresh : Fresh u (runCalls u.place u.rows calls u.start) := by
      refine hkeeps fun c hc hspoils => ?_
      obtain ⟨hlist, hcompletes | hquota⟩ := hspoils
      · exact (hgood c hc hlist).2 hcompletes
      · exact hquota (hgood c hc hlist).1
    exact call_clean hfresh hlast (by omega) hexpiry.2 hclean hkey

end Sequences

/-! ### A presigned upload of one part -/

def sampleRow : UploadSession :=
  { id := "u1", totalSize := 1, chunkSize := 5, totalChunks := 1, status := .presigned
    sessionKind := .providerPresignedMultipart, objectTempKey := some "files/u1"
    objectMultipartId := some "m1", expiresAt := 100 }

def samplePlacement : Placement :=
  { scope := .personal 1, folderId := none, filename := "a.txt", mimeType := "text/plain"
    policyId := 1, hashPrefix := "s3", nextCopyName := id }

def samplePart : UploadedPart := ⟨1, "e1", [97]⟩

def sampleUpload : MultipartUpload where
  row := sampleRow
  place := samplePlacement
  rows := Table.empty
  uploaded := [samplePart]
  listing := [samplePart]
  tempKey := "files/u1"
  multipartId := "m1"
  key := rfl
  id := rfl
  kind := rfl
  status := rfl
  chunks := by decide
  numbered := rfl
  listed := List.Perm.refl _
  recorded := fun h => absurd h (by decide)
  total := rfl
  bounded := by decide

def timeout (tookEffect : Bool) : Fault := ⟨.transient, .inl rfl, "timeout", tookEffect⟩

def cleanCall : Call := { parts := some [(1, "e1")], startedAt := 20, claimedAt := 20, db := emptyDb }

/-- The completion takes effect, but its answer and the look at the object are lost. -/
def lostCall : Call :=
  { cleanCall with
    startedAt := 10, claimedAt := 10
    faults := { complete := some (timeout true), metadata := some (timeout false) } }

/-- Only the listing fails. -/
def unlistedCall : Call :=
  { cleanCall with startedAt := 10, claimedAt := 10, faults := { list := some (timeout false) } }

theorem sample_presents {c : Call} (h : c.parts = some [(1, "e1")]) : sampleUpload.Presents c :=
  fun _ => ⟨[(1, "e1")], h, List.Perm.refl _⟩

theorem sample_clean : sampleUpload.Clean cleanCall := ⟨rfl, rfl, _, rfl⟩

theorem sample_keyFree : sampleUpload.KeyFree cleanCall.db := fun _ h => absurd h not_mem_nil

/-- **A lost completion is not recovered.** The first call leaves the session `Presigned`, the clean
call that follows fails it for good. -/
theorem lost_completion : sampleUpload.Presents lostCall ∧ sampleUpload.QuotaAdmits lostCall ∧
      sampleUpload.Presents cleanCall ∧ sampleUpload.Clean cleanCall ∧
      cleanCall.claimedAt < sampleUpload.row.expiresAt ∧
      (runCalls sampleUpload.place sampleUpload.rows [lostCall] sampleUpload.start).session.status = .presigned ∧
      ¬ sampleUpload.ReturnsObject (sampleUpload.complete cleanCall
        (runCalls sampleUpload.place sampleUpload.rows [lostCall] sampleUpload.start)) := by
  refine ⟨sample_presents rfl, rfl, sample_presents rfl, sample_clean, by decide, rfl, ?_⟩
  rintro ⟨f, db, b, hok, _⟩
  have herr : (sampleUpload.complete cleanCall
      (runCalls sampleUpload.place sampleUpload.rows [lostCall] sampleUpload.start)).1 =
        .error (.ofStorage .notFound "NoSuchUpload") := rfl
  rw [herr] at hok
  simp at hok

/-- A listing that failed costs nothing. -/
theorem completion_survives_unlisted : sampleUpload.ReturnsObject (sampleUpload.complete cleanCall
      (runCalls sampleUpload.place sampleUpload.rows [unlistedCall] sampleUpload.start)) := by
  refine (completion_survives_iff sampleUpload [unlistedCall] cleanCall ?_ (sample_presents rfl) ?_
    (by decide) sample_clean sample_keyFree (by decide)).mpr ?_
  · intro c hc
    obtain rfl := mem_singleton.mp hc
    exact sample_presents rfl
  · intro c hc
    obtain rfl := mem_singleton.mp hc
    decide
  · intro c hc hlist
    obtain rfl := mem_singleton.mp hc
    exact absurd hlist (by simp [unlistedCall])

end AsterDrive.Upload.MultipartCompletion
