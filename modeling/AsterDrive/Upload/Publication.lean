import AsterDrive.Upload.Completion
import AsterDrive.Workspace.Runs

/-!
# Publication — the transactions that turn an upload into a file

Three transactions end an upload: `finalize_upload_session_file` (with its two copies in
`chunked.rs`) for everything that a complete call publishes, and, for the body of a stream session,
`store_preuploaded_nondedup` and `persist_temp_store` with a `complete_upload_id`. All of them create
the blob, the file and the charge, and then move the session from `Assembling` to `Completed` or fail
as a whole. `publish_ok` says what a committed one leaves behind.
-/

namespace AsterDrive.Upload

open Db Option

/-- What the publishing transaction reads of the session and of its storage policy. -/
structure Placement where
  scope : WorkspaceStorageScope
  folderId : Option ℕ
  filename : String
  mimeType : String
  policyId : ℕ
  hashPrefix : String
  nextCopyName : String → String

def opaqueUploadFileHash (p : Placement) (uploadId : String) : String := p.hashPrefix ++ "-" ++ uploadId

/-- `VerifiedUploadSource`, with the path and the size of the verified object. -/
inductive UploadSource
  | opaqueObject (storagePath : String) (size : ℕ)
  | contentAddressed (fileHash storagePath : String) (size : ℕ)
  | preuploaded (prepared : PreparedNonDedupBlobUpload)

namespace UploadSource

def storagePath : UploadSource → String
  | opaqueObject storagePath _ | contentAddressed _ storagePath _ => storagePath
  | preuploaded prepared => prepared.storagePath

/-- The key under which the blob may already have a row. -/
def fileHash (p : Placement) (uploadId : String) : UploadSource → Option String
  | opaqueObject _ _ => some (opaqueUploadFileHash p uploadId)
  | contentAddressed fileHash _ _ => some fileHash
  | preuploaded _ => none

def size : UploadSource → ℕ
  | opaqueObject _ size | contentAddressed _ _ size => size
  | preuploaded prepared => prepared.size

def verified (p : Placement) (uploadId : String) : UploadSource → VerifiedUpload
  | opaqueObject storagePath size =>
    .findOrCreate (opaqueUploadFileHash p uploadId) storagePath size p.policyId
  | contentAddressed fileHash storagePath size =>
    .findOrCreate fileHash storagePath size p.policyId
  | preuploaded prepared => .preuploaded prepared

end UploadSource

/-- Which transaction publishes, and what. -/
inductive Publication
  | session (source : UploadSource)
  | directStream (prepared : PreparedNonDedupBlobUpload)
  | localStream (blob : TempBlob)

namespace Publication

def storagePath : Publication → String
  | session source => source.storagePath
  | directStream prepared | localStream (.preuploaded prepared) => prepared.storagePath
  | localStream (.contentAddressed _ storagePath _ _) => storagePath

def fileHash (p : Placement) (uploadId : String) : Publication → Option String
  | session source => source.fileHash p uploadId
  | localStream (.contentAddressed fileHash _ _ _) => some fileHash
  | directStream _ | localStream (.preuploaded _) => none

def size : Publication → ℕ
  | session source => source.size
  | directStream prepared => prepared.size
  | localStream blob => blob.size

/-- The statements on the content tables. -/
def write (p : Placement) (uploadId : String) (now : ℕ) (etag : String) : Publication → Txn File
  | session source =>
    finalizeUploadSession p.nextCopyName p.scope (source.verified p uploadId) p.folderId p.filename
      p.mimeType now etag (.ok ())
  | directStream prepared =>
    storePreuploadedNondedup p.nextCopyName p.scope prepared none p.folderId p.filename p.mimeType now etag
  | localStream blob =>
    storeFromTemp p.nextCopyName p.scope blob (.newFile p.folderId p.filename .resolveUnique) p.mimeType now etag

/-- The last statement, on the session row; without a row it affects none. -/
def completeRow (row : Option UploadSession) (fileId now : ℕ) : Publication → Except AsterError UploadSession
  | session _ =>
    match row with
    | none => .error (.recordNotFound { message := "upload session" })
    | some u => markUploadSessionCompleted u fileId now
  | directStream _ | localStream _ =>
    match row.bind fun u => u.completeIfAssembling fileId now with
    | none => .error (.conflict
        { message := "upload session changed while publishing the file"
          apiCode := some .uploadStatusConflict })
    | some u => .ok u

/-- The whole transaction, on the session row and the database as they are when it runs. -/
def publish (p : Placement) (uploadId : String) (row : Option UploadSession) (now : ℕ)
    (etag : String) (pub : Publication) (db : Db) :
    Except AsterError (File × UploadSession × Db) := do
  let (f, db') ← pub.write p uploadId now etag db
  let u ← pub.completeRow row f.id now
  .ok (f, u, db')

/-- The row that a streamed content would adopt is as long as the content. -/
def Honest (db : Db) : Publication → Prop
  | localStream (.contentAddressed fileHash _ size _) =>
    ∀ x ∈ db.blobs.rows, x.hash = fileHash → x.backing = .stored → x.size = size
  | _ => True

end Publication

/-- A blob row, whatever its count, has this path. -/
def Known (db : Db) (path : String) : Prop := ∃ b ∈ db.blobs.rows, b.storagePath = some path

/-- The path belongs to a blob row that is referenced. -/
def Live (db : Db) (path : String) : Prop := ∃ b ∈ db.blobs.rows, b.storagePath = some path ∧ 0 < b.refCount

instance (db : Db) (path : String) : Decidable (Live db path) := inferInstanceAs (Decidable (∃ b ∈ _, _))

theorem Live.known {db : Db} {path : String} (h : Live db path) : Known db path := by
  obtain ⟨b, hb, hpath, _⟩ := h
  exact ⟨b, hb, hpath⟩

/-! ### What a committed publication did -/

/-- One file more, with the blob `b`, whose size is charged to the workspace. -/
structure Published (scope : WorkspaceResourceScope) (db : Db) (f : File) (b : FileBlob) (db' : Db) : Prop where
  rows : db'.files.rows = db.files.rows ++ [f]
  id : f.id = db.files.next
  blobId : f.blobId = b.id
  size : f.size = b.size
  blobs : Persisted db.blobs db'.blobs b
  used : ∀ w u, db.usage.get w = some u → ∃ u', db'.usage.get w = some u' ∧
    u'.storageUsed = u.storageUsed + if w = scope then (f.size : ℤ) else 0

section

variable {db db1 db' : Db} {f : File} {b : FileBlob} {scope : WorkspaceStorageScope}

/-- The usage rows differ by the charge only. -/
def Charged (scope : WorkspaceResourceScope) (n : ℤ) (db db' : Db) : Prop :=
  ∀ w u, db.usage.get w = some u → ∃ u', db'.usage.get w = some u' ∧
    u'.storageUsed = u.storageUsed + if w = scope then n else 0

theorem updateStorageUsedOn_ok {n : ℕ} {u : Unit} (hok : updateStorageUsedOn scope n db = .ok (u, db')) :
    db'.files = db.files ∧ db'.blobs = db.blobs ∧ Charged scope.resource n db db' := by
  unfold updateStorageUsedOn updateStorageUsedFor at hok
  split at hok
  · simp at hok
  rename_i usage floored hupd
  cases hok
  refine ⟨rfl, rfl, ?_⟩
  obtain ⟨v, hv, _, hget, _⟩ := updateStorageUsed_ok hupd
  have hpos : (0 : ℤ) ≤ n := Int.natCast_nonneg n
  intro w x hx
  by_cases hw : w = scope.resource
  · subst hw
    obtain rfl : x = v := some.inj (hx.symm.trans hv)
    refine ⟨{ x with storageUsed := nextStorageUsed x.storageUsed n }, ?_, ?_⟩
    · show usage.get scope.resource = _
      rw [hget, if_pos rfl]
    · show nextStorageUsed x.storageUsed n = _
      unfold nextStorageUsed
      rw [if_pos hpos, if_pos rfl]
  · refine ⟨x, ?_, ?_⟩
    · show usage.get w = _
      rw [hget, if_neg hw, hx]
    · rw [if_neg hw, add_zero]

theorem chargeIfNonzero_ok {n : ℕ} {u : Unit} (hok : chargeIfNonzero scope n db = .ok (u, db')) :
    db'.files = db.files ∧ db'.blobs = db.blobs ∧ Charged scope.resource n db db' := by
  unfold chargeIfNonzero at hok
  split_ifs at hok with hn
  · exact updateStorageUsedOn_ok hok
  · cases hok
    refine ⟨rfl, rfl, fun w x hx => ⟨x, hx, ?_⟩⟩
    have hzero : (n : ℤ) = 0 := not_not.mp hn
    rw [hzero, ite_self, add_zero]

theorem checkQuotaIfPositive_ok {n : ℤ} {u : Unit}
    (hok : checkQuotaIfPositive scope n db = .ok (u, db')) : db' = db := by
  unfold checkQuotaIfPositive at hok
  split_ifs at hok
  · unfold checkQuotaOn at hok
    have hchk := bind_get_ok.mp hok
    exact (check_ok.mp hchk).2.symm
  · exact (pure_txn_ok.mp hok).2.symm

theorem createFileFromBlob_ok {nextCopyName : String → String} {mode : NewFileNameMode}
    {d : FileDraft} {etag : String} (hok : createFileFromBlob nextCopyName mode d etag db = .ok (f, db')) :
    db'.files.rows = db.files.rows ++ [f] ∧ f.id = db.files.next ∧ f.blobId = d.blobId ∧
      f.size = d.size ∧ db'.blobs = db.blobs ∧ db'.usage = db.usage := by
  obtain ⟨created, s1, hins, hok1⟩ := bind_txn hok
  obtain ⟨r, s2, hinit, hok2⟩ := bind_txn hok1
  cases hok2
  obtain ⟨name, hin⟩ := insertFileByMode_ok hins
  rw [createInitial_ok hinit, hin.state, hin.row]
  exact ⟨rfl, rfl, rfl, rfl, rfl, rfl⟩

/-- The blob and the file are there; what is missing is the charge of the file's size. -/
theorem published_of_parts {n : ℕ} {d : FileDraft} {etag : String} {s2 : Db}
    {nextCopyName : String → String} {mode : NewFileNameMode} {blobs : Blobs}
    (hb : Persisted db.blobs blobs b)
    (hcreate : createFileFromBlob nextCopyName mode d etag { db with blobs } = .ok (f, s2))
    (hid : d.blobId = b.id) (hsize : d.size = b.size) (hn : n = b.size)
    (hfin : db'.files = s2.files ∧ db'.blobs = s2.blobs ∧ Charged scope.resource n s2 db') :
    Published scope.resource db f b db' := by
  obtain ⟨hrows, hfid, hblob, hfsize, hblobs, husage⟩ := createFileFromBlob_ok hcreate
  obtain ⟨hfiles, hblobs', hcharged⟩ := hfin
  refine ⟨?_, hfid, hblob.trans hid, hfsize.trans hsize, ?_, ?_⟩
  · rw [hfiles, hrows]
  · rw [hblobs', hblobs]
    exact hb
  · intro w u hu
    have hget : s2.usage.get w = some u := by
      rw [husage]
      exact hu
    rw [hfsize, hsize, ← hn]
    exact hcharged w u hget

end

/-- Where the published blob comes from: a row that already had the key, or a new row at the path. -/
inductive RowFor (db : Db) (hash : Option String) (path : String) (size : ℕ) (b : FileBlob) : Prop
  | adopted (x : FileBlob) (hx : db.blobs.get b.id = some x) (hpath : x.storagePath = b.storagePath)
      (hsize : x.size = b.size) (hhash : hash = some x.hash) (hstored : x.backing = .stored)
  | inserted (hid : b.id = db.blobs.next) (hpath : b.storagePath = some path) (hsize : b.size = size)

section

variable {db db' : Db} {f : File} {b : FileBlob}

theorem findOrCreate_row {fileHash path : String} {size policyId : ℕ} {blobs : Blobs}
    (hok : findOrCreateBlob db.blobs fileHash size policyId path = .ok (b, blobs)) :
    Persisted db.blobs blobs b ∧ RowFor db (some fileHash) path size b := by
  obtain ⟨hp, ⟨x, hx, hsize, hkey⟩ | ⟨hid, hsize, _, _, hpath⟩⟩ := adoptOrInsert_ok hok
  · unfold hasBlobKey at hkey
    rw [decide_eq_true_eq] at hkey
    have hsame : b = { x with refCount := x.refCount + oneRef b.id b.id } :=
      some.inj (hp.get.symm.trans (hp.shifted.old _ _ hx))
    have hpath : x.storagePath = b.storagePath := by rw [hsame]
    exact ⟨hp, .adopted x hx hpath hsize (by rw [hkey.1]) hkey.2.2⟩
  · exact ⟨hp, .inserted hid hpath hsize⟩

theorem preuploaded_row {prepared : PreparedNonDedupBlobUpload} {blobs : Blobs}
    (hok : persistPreuploadedBlob db.blobs prepared = .ok (b, blobs)) :
    Persisted db.blobs blobs b ∧ RowFor db none prepared.storagePath prepared.size b := by
  obtain ⟨hp, hid, hsize, _, _, hpath⟩ := persistPreuploaded_ok hok
  exact ⟨hp, .inserted hid hpath hsize⟩

theorem persistVerifiedUpload_row {p : Placement} {uploadId : String} {source : UploadSource}
    {s1 : Db} (hok : persistVerifiedUpload (source.verified p uploadId) db = .ok (b, s1)) :
    ∃ blobs, s1 = { db with blobs } ∧ Persisted db.blobs blobs b ∧
      RowFor db (source.fileHash p uploadId) source.storagePath source.size b := by
  cases source with
  | opaqueObject path size | contentAddressed fileHash path size =>
    simp only [UploadSource.verified, persistVerifiedUpload] at hok
    obtain ⟨blobs, hblobs, rfl⟩ := onBlobs_ok hok
    exact ⟨blobs, rfl, findOrCreate_row hblobs⟩
  | preuploaded prepared =>
    simp only [UploadSource.verified, persistVerifiedUpload] at hok
    obtain ⟨blobs, hblobs, rfl⟩ := onBlobs_ok hok
    exact ⟨blobs, rfl, preuploaded_row hblobs⟩

theorem persistTempBlob_row {p : Placement} {uploadId : String} {temp : TempBlob} {s1 : Db}
    (hok : persistTempBlob temp db = .ok (b, s1)) :
    ∃ blobs, s1 = { db with blobs } ∧ Persisted db.blobs blobs b ∧
      RowFor db ((Publication.localStream temp).fileHash p uploadId)
        (Publication.localStream temp).storagePath temp.size b := by
  cases temp with
  | contentAddressed fileHash path size policyId =>
    simp only [persistTempBlob] at hok
    obtain ⟨blobs, hblobs, rfl⟩ := onBlobs_ok hok
    exact ⟨blobs, rfl, findOrCreate_row hblobs⟩
  | preuploaded prepared =>
    simp only [persistTempBlob] at hok
    obtain ⟨blobs, hblobs, rfl⟩ := onBlobs_ok hok
    exact ⟨blobs, rfl, preuploaded_row hblobs⟩

namespace Publication

variable {p : Placement} {uploadId etag : String} {now : ℕ}

theorem write_session_ok {source : UploadSource} (hok : (session source).write p uploadId now etag db = .ok (f, db')) :
    ∃ b, Published p.scope.resource db f b db' ∧
      RowFor db (source.fileHash p uploadId) source.storagePath source.size b := by
  obtain ⟨blob, s1, hblob, hok1⟩ := bind_txn hok
  obtain ⟨created, s2, hcreate, hok2⟩ := bind_txn hok1
  obtain ⟨_, s3, hcharge, hok3⟩ := bind_txn hok2
  obtain ⟨_, _, hok4⟩ := bind_check_ok.mp hok3
  cases hok4
  obtain ⟨blobs, rfl, hp, hrow⟩ := persistVerifiedUpload_row hblob
  exact ⟨blob, published_of_parts hp hcreate rfl rfl rfl (updateStorageUsedOn_ok hcharge), hrow⟩

theorem write_directStream_ok {prepared : PreparedNonDedupBlobUpload}
    (hok : (directStream prepared).write p uploadId now etag db = .ok (f, db')) :
    ∃ b, Published p.scope.resource db f b db' ∧ RowFor db none prepared.storagePath prepared.size b := by
  obtain ⟨_, s0, hquota, hok0⟩ := bind_txn hok
  obtain rfl := checkQuotaIfPositive_ok hquota
  obtain ⟨blob, s1, hblob, hok1⟩ := bind_txn hok0
  obtain ⟨created, s2, hcreate, hok2⟩ := bind_txn hok1
  obtain ⟨_, s3, hcharge, hok3⟩ := bind_txn hok2
  cases hok3
  obtain ⟨blobs, hblobs, rfl⟩ := onBlobs_ok hblob
  have hsize : prepared.size = blob.size := by
    rw [(persistPreuploaded_ok hblobs).2.2.1]
  obtain ⟨hp, hrow⟩ := preuploaded_row hblobs
  exact ⟨blob, published_of_parts hp hcreate rfl rfl hsize (chargeIfNonzero_ok hcharge), hrow⟩

theorem write_localStream_ok {temp : TempBlob} (hhonest : (localStream temp).Honest db)
    (hok : (localStream temp).write p uploadId now etag db = .ok (f, db')) :
    ∃ b, Published p.scope.resource db f b db' ∧
      RowFor db ((localStream temp).fileHash p uploadId) (localStream temp).storagePath
        temp.size b := by
  obtain ⟨_, s0, hquota, hok0⟩ := bind_txn hok
  obtain rfl := checkQuotaIfPositive_ok hquota
  obtain ⟨blob, s1, hblob, hok1⟩ := bind_txn hok0
  obtain ⟨created, s2, hcreate, hok2⟩ := bind_txn hok1
  obtain ⟨_, s3, hcharge, hok3⟩ := bind_txn hok2
  cases hok3
  obtain ⟨blobs, rfl, hp, hrow⟩ := persistTempBlob_row (p := p) hblob
  have hsize : temp.size = blob.size := by
    cases hrow with
    | inserted _ _ hsize => exact hsize.symm
    | adopted x hx _ hsize hhash hstored =>
      cases temp with
      | preuploaded prepared => simp [fileHash] at hhash
      | contentAddressed hash path size policyId =>
        have hxhash : x.hash = hash := (some.inj hhash).symm
        rw [← hsize]
        exact (hhonest x (Table.mem_of_get hx) hxhash hstored).symm
  exact ⟨blob, published_of_parts hp hcreate rfl rfl hsize (chargeIfNonzero_ok hcharge), hrow⟩

/-- **What a committed publication wrote**: one file, its blob, and the charge of its size. -/
theorem write_ok {pub : Publication} (hhonest : pub.Honest db) (hok : pub.write p uploadId now etag db = .ok (f, db')) :
    ∃ b, Published p.scope.resource db f b db' ∧ RowFor db (pub.fileHash p uploadId) pub.storagePath pub.size b := by
  cases pub with
  | session source => exact write_session_ok hok
  | directStream prepared => exact write_directStream_ok hok
  | localStream temp => exact write_localStream_ok hhonest hok

theorem completeRow_ok {pub : Publication} {row : Option UploadSession} {fileId : ℕ}
    {u : UploadSession} (hok : pub.completeRow row fileId now = .ok u) :
    ∃ v, row = some v ∧ v.status = .assembling ∧
      u = { v with status := .completed, fileId := some fileId, updatedAt := now } := by
  have hstep : ∃ v, row = some v ∧ v.completeIfAssembling fileId now = some u := by
    cases pub with
    | session source =>
      unfold completeRow at hok
      cases row with
      | none => simp at hok
      | some v =>
        simp only [markUploadSessionCompleted] at hok
        split at hok
        · rename_i v' hv
          exact ⟨v, rfl, by rw [hv, Except.ok.inj hok]⟩
        · split_ifs at hok
    | directStream prepared | localStream temp =>
      simp only [completeRow] at hok
      split at hok
      · simp at hok
      · rename_i v' hv
        obtain ⟨v, hrow, hv⟩ := bind_eq_some_iff.mp hv
        exact ⟨v, hrow, by rw [hv, Except.ok.inj hok]⟩
  obtain ⟨v, hrow, hv⟩ := hstep
  unfold UploadSession.completeIfAssembling at hv
  split_ifs at hv with hstatus
  exact ⟨v, hrow, hstatus, (some.inj hv).symm⟩

theorem publish_ok {pub : Publication} {row : Option UploadSession} {u : UploadSession} (hhonest : pub.Honest db)
    (hok : pub.publish p uploadId row now etag db = .ok (f, u, db')) :
    (∃ b, Published p.scope.resource db f b db' ∧ RowFor db (pub.fileHash p uploadId) pub.storagePath pub.size b) ∧
    ∃ v, row = some v ∧ v.status = .assembling ∧
      u = { v with status := .completed, fileId := some f.id, updatedAt := now } := by
  obtain ⟨⟨f1, db1⟩, hwrite, hok1⟩ := bind_ok hok
  obtain ⟨u1, hrow, hok2⟩ := bind_ok hok1
  obtain ⟨rfl, rfl, rfl⟩ : f1 = f ∧ u1 = u ∧ db1 = db' := by simpa using hok2
  exact ⟨write_ok hhonest hwrite, completeRow_ok hrow⟩

end Publication

/-- The paths that become live are those of rows that were there and the one that is published. -/
theorem Published.live {scope : WorkspaceResourceScope} {hash : Option String} {path q : String}
    {size : ℕ} (h : Published scope db f b db') (hrow : RowFor db hash path size b)
    (hlive : Live db' q) : Known db q ∨ q = path := by
  obtain ⟨x, hx, hpath, _⟩ := hlive
  by_cases hold : x.id < db.blobs.next
  · left
    rcases hget : db.blobs.get x.id with _ | y
    · have hnew := (h.blobs.shifted.new x.id x hget (Table.get_of_mem hx)).1
      omega
    · have hsame := h.blobs.shifted.old x.id y hget
      rw [Table.get_of_mem hx] at hsame
      refine ⟨y, Table.mem_of_get hget, ?_⟩
      rw [← hpath, some.inj hsame]
  · obtain rfl : x = b := h.blobs.fresh x hx (Nat.le_of_not_lt hold)
    cases hrow with
    | adopted y hy _ _ _ _ => exact absurd (SerialTable.lt_next_of_get hy) hold
    | inserted _ hbpath _ => exact .inr (some.inj (hpath.symm.trans hbpath))

end

end AsterDrive.Upload
