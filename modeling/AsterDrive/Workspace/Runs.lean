import AsterDrive.Workspace.Maintenance

/-!
# Runs — the content transactions of a server

A server serves requests: it reads file rows outside of any transaction (`load`), and later commits
transactions that use what was read, however old it is by then. `Step` has one constructor for each
transaction that changes files, blobs, revisions or usage; a transaction that fails changes nothing
and is no step. `Reach` are the runs.

The three main results are about every state of every run: the revision ledger (`revision_ledger`),
the reference counts (`ref_counts_exact`) and the storage accounts (`storage_accounts_exact`).
-/

namespace AsterDrive.Db

open Lineage List Option

/-- What the server does not compute itself: the names it proposes for copies, the normal form of
names, the content hash, and the bodies that clients send. -/
structure Env where
  nextCopyName : String → String
  normalizeName : String → String
  digest : List UInt8 → String
  contents : Set (List UInt8)

/-- What the accounts rely on of SHA-256: a digest is 64 hexadecimal digits, and no two bodies of
different length that clients ever send have the same digest. -/
structure Env.Sha256 (env : Env) : Prop where
  hex : ∀ c ∈ env.contents, isContentSha256BlobKey (env.digest c) = true
  sizes : ∀ c ∈ env.contents, ∀ c' ∈ env.contents, env.digest c = env.digest c' → c.length = c'.length

/-- The body of a store: bytes that are stored under their digest, or an object uploaded before. -/
inductive Body
  | content (bytes : List UInt8) (storagePath : String) (policyId : ℕ)
  | preuploaded (prepared : PreparedNonDedupBlobUpload)

def Body.temp (env : Env) : Body → TempBlob
  | .content bytes storagePath policyId =>
    .contentAddressed (env.digest bytes) storagePath bytes.length policyId
  | .preuploaded prepared => .preuploaded prepared

/-- The bytes are a body that clients send. -/
def Body.Sent (env : Env) : Body → Prop
  | .content bytes _ _ => bytes ∈ env.contents
  | .preuploaded _ => True

/-- What an upload session ends with: one of the above, or the object of a multipart, presigned or
provider upload, whose blob is named `opaque_upload_file_hash`. -/
inductive FinishedUpload
  | ofBody (body : Body)
  | opaqueObject (hashPrefix uploadId storagePath : String) (size policyId : ℕ)

def FinishedUpload.verified (env : Env) : FinishedUpload → VerifiedUpload
  | .ofBody (.content bytes storagePath policyId) =>
    .findOrCreate (env.digest bytes) storagePath bytes.length policyId
  | .ofBody (.preuploaded prepared) => .preuploaded prepared
  | .opaqueObject hashPrefix uploadId storagePath size policyId =>
    .findOrCreate (hashPrefix ++ "-" ++ uploadId) storagePath size policyId

def FinishedUpload.Sent (env : Env) : FinishedUpload → Prop
  | .ofBody body => body.Sent env
  | .opaqueObject .. => True

/-- The database, and the file rows that requests have read so far. -/
structure Server where
  db : Db
  loaded : List File := []

/-- A committed transaction, or a read. -/
inductive Step (env : Env) (s : Server) : Server → Prop
  | load {file : File} (hfile : file ∈ s.db.files.rows) : Step env s { s with loaded := file :: s.loaded }
  | store {scope : WorkspaceStorageScope} {body : Body} {target : StoreTarget} {mime etag : String}
      {now : ℕ} {f : File} {db : Db} (hsent : body.Sent env)
      (hok : storeFromTemp env.nextCopyName scope (body.temp env) target mime now etag s.db =
        .ok (f, db)) : Step env s { s with db }
  | storePreuploaded {scope : WorkspaceStorageScope} {prepared : PreparedNonDedupBlobUpload}
      {overwritten : Option File} {folderId : Option ℕ} {name mime etag : String} {now : ℕ}
      {f : File} {db : Db}
      (hok : storePreuploadedNondedup env.nextCopyName scope prepared overwritten folderId name mime
        now etag s.db = .ok (f, db)) : Step env s { s with db }
  | createEmpty {scope : WorkspaceStorageScope} {folderId : Option ℕ} {name mime etag : String}
      {mode : NewFileNameMode} {policyId now : ℕ} {f : File} {db : Db}
      (hok : createEmpty env.nextCopyName scope folderId name mode policyId mime now etag s.db =
        .ok (f, db)) : Step env s { s with db }
  | finalizeUpload {scope : WorkspaceStorageScope} {upload : FinishedUpload} {folderId : Option ℕ}
      {name mime etag : String} {now : ℕ} {completed : Except AsterError Unit} {f : File} {db : Db}
      (hsent : upload.Sent env)
      (hok : finalizeUploadSession env.nextCopyName scope (upload.verified env) folderId name mime
        now etag completed s.db = .ok (f, db)) : Step env s { s with db }
  | restoreVersion {scope : WorkspaceStorageScope} {file : File} {revisionId now : ℕ}
      {etag : String} {f : File} {db : Db} (hfile : file ∈ s.loaded)
      (haccess : ensureActiveFileScope file scope = .ok ())
      (hok : restoreVersionInner scope file revisionId now etag s.db = .ok (f, db)) :
      Step env s { s with db }
  | deleteVersion {scope : WorkspaceStorageScope} {file : File} {revisionId : ℕ} {db : Db}
      (hfile : file ∈ s.loaded) (haccess : ensureActiveFileScope file scope = .ok ())
      (hok : deleteVersionInner scope file revisionId s.db = .ok ((), db)) : Step env s { s with db }
  | cleanupExcess {file : File} {maxHistory : ℕ} {db : Db} (hfile : file ∈ s.loaded)
      (hok : cleanupExcessRound file maxHistory s.db = .ok ((), db)) : Step env s { s with db }
  | changeProperty {scope : WorkspaceStorageScope} {fileId : ℕ} {etag : String} {db : Db}
      (hok : recordPropertyChange scope fileId etag s.db = .ok ((), db)) : Step env s { s with db }
  | copyBatch {scope : WorkspaceStorageScope} {specs : List CopySpec} {destFolderId : Option ℕ}
      {now : ℕ} {etag : File → String} {fs : List File} {db : Db}
      (hsrc : ∀ c ∈ specs, c.src ∈ s.loaded)
      (hok : batchDuplicateFileRecords env.normalizeName scope specs destFolderId now etag s.db =
        .ok (fs, db)) : Step env s { s with db }
  | copyOne {scope : WorkspaceStorageScope} {spec : CopySpec} {now : ℕ} {etag : File → String}
      {f : File} {db : Db} (hsrc : spec.src ∈ s.loaded)
      (hok : duplicateFileRecord scope spec now etag s.db = .ok (f, db)) : Step env s { s with db }
  | copyTree {scope : WorkspaceStorageScope} {specs : List CopySpec} {now : ℕ}
      {etag : File → String} {fs : List File} {db : Db} (hsrc : ∀ c ∈ specs, c.src ∈ s.loaded)
      (hok : batchDuplicateToMixedFolders scope specs now etag s.db = .ok (fs, db)) :
      Step env s { s with db }
  | purge {scope : WorkspaceResourceScope} {files : List File} {ids : List ℕ} {db : Db}
      (hok : purgeFilesOn scope files s.db = .ok (ids, db)) : Step env s { s with db }
  | claim {blobId : ℕ} {db : Db} (hok : claimCleanup blobId s.db = .ok ((), db)) : Step env s { s with db }
  | restoreClaim {blobId : ℕ} {db : Db} (hok : restoreClaim blobId s.db = .ok ((), db)) : Step env s { s with db }
  | deleteClaimed {blobId : ℕ} {db : Db} (hok : deleteClaimedBlob blobId s.db = .ok ((), db)) : Step env s { s with db }
  | reconcile {blobId : ℕ} {claimIsStale : Bool} {db : Db}
      (hok : reconcileBlob blobId claimIsStale s.db = .ok ((), db)) : Step env s { s with db }

/-- The states of the runs that start with the database `db`. -/
inductive Reach (env : Env) (db : Db) : Server → Prop
  | start : Reach env db { db }
  | step {s s' : Server} (hs : Reach env db s) (hstep : Step env s s') : Reach env db s'

/-! ### One step -/

/-- The books that a proof keeps during a run. -/
def Env.watch (env : Env) (counts accounts : Prop) (needs : accounts → counts)
    (sha : accounts → env.Sha256) : Watched where
  counts := counts
  accounts := accounts
  digest := env.digest
  contents := env.contents
  needs := needs
  hex := fun hA => (sha hA).hex
  sizes := fun hA => (sha hA).sizes

/-- What a row that was read tells about the database now. -/
structure Seen (s : Db) (f : File) : Prop where
  id : f.id < s.files.next
  workspace : ∀ g ∈ s.files.rows, g.id = f.id → g.workspace = f.workspace
  blob : BlobSeen s f

theorem Seen.later {s s' : Db} {f : File} (h : Seen s f) (he : Extends s s') : Seen s' f := by
  refine ⟨lt_of_lt_of_le h.id he.files.next, ?_, h.blob.later he.blobs⟩
  intro g' hg' hid
  obtain ⟨g, hg, hgid, hws⟩ := he.files.old g' hg' (hid ▸ h.id)
  rw [← hws]
  exact h.workspace g hg (hgid.trans hid)

/-- The invariant of a run. -/
structure InOrder (W : Watched) (s : Server) : Prop where
  books : Consistent W s.db
  seen : W.accounts → ∀ f ∈ s.loaded, Seen s.db f

theorem InOrder.load {W : Watched} {s : Server} (h : InOrder W s) {f : File}
    (hf : f ∈ s.db.files.rows) : InOrder W { s with loaded := f :: s.loaded } := by
  refine ⟨h.books, ?_⟩
  intro hA g hg
  rcases mem_cons.mp hg with rfl | hg
  · obtain ⟨hist, hh, hhf⟩ := h.books.ledger.kept g hf (Set.notMem_empty _)
    obtain ⟨r, l, hl, hp⟩ := h.books.ledger.chain g hf hist hh hhf
    obtain ⟨hr, _, hret⟩ := (hl.mem r).mp mem_cons_self
    refine ⟨s.db.files.below g hf, ?_, ?_, fun b hb => h.books.blob_of_file hA hf hb⟩
    · intro x hx hid
      rw [Table.eq_of_key hx hf hid]
    · -- the current revision refers to the blob, so its row exists
      have hpos := refs_pos_of_mem hr hret hp.blob
      rcases hb : s.db.blobs.get g.blobId with _ | b
      · have hzero := ((h.books.balanced (W.needs hA)).gone _ hb).1
        omega
      · exact SerialTable.lt_next_of_get hb
  · exact h.seen hA g hg

variable {env : Env} {counts accounts : Prop} {needs : accounts → counts} {sha : accounts → env.Sha256} {s s' : Server}

theorem Body.admits {body : Body} (hsent : body.Sent env) :
    (env.watch counts accounts needs sha).Admits (body.temp env) := by
  cases body with
  | content bytes storagePath policyId => exact ⟨bytes, hsent, rfl, rfl⟩
  | preuploaded prepared => exact trivial

theorem FinishedUpload.verifies {upload : FinishedUpload} (hsent : upload.Sent env) :
    (env.watch counts accounts needs sha).Verifies (upload.verified env) := by
  cases upload with
  | ofBody body =>
    cases body with
    | content bytes storagePath policyId => exact .inl ⟨bytes, hsent, rfl, rfl⟩
    | preuploaded prepared => exact trivial
  | opaqueObject hashPrefix uploadId storagePath size policyId =>
    exact .inr (isContent_append_dash hashPrefix uploadId)

/-- **Every step keeps the books**, and extends the database it found. -/
theorem step_keeps (h : InOrder (env.watch counts accounts needs sha) s) (hstep : Step env s s') :
    Underway (env.watch counts accounts needs sha) s.db s'.db ∅ 0 0 := by
  have hb := h.books
  cases hstep with
  | load hfile => exact hb
  | store hsent hok => exact storeFromTemp_keeps hb (fun _ => Body.admits hsent) hok
  | storePreuploaded hok => exact storePreuploaded_keeps hb hok
  | createEmpty hok => exact createEmpty_keeps hb hok
  | finalizeUpload hsent hok =>
    exact finalizeUploadSession_keeps hb (fun _ => FinishedUpload.verifies hsent) hok
  | restoreVersion hfile haccess hok =>
    exact restoreVersion_keeps hb (workspace_of_ensureActive haccess) hok
  | @deleteVersion scope file revisionId db hfile haccess hok =>
    refine deleteVersion_keeps hb ?_ hok
    intro hA g hg hid
    rw [(h.seen hA file hfile).workspace g hg hid]
    exact workspace_of_ensureActive haccess
  | @cleanupExcess file maxHistory db hfile hok =>
    exact cleanupExcess_keeps hb (fun hA => (h.seen hA file hfile).workspace) hok
  | changeProperty hok => exact recordPropertyChange_keeps hb hok
  | copyBatch hsrc hok =>
    exact batchDuplicate_keeps hb (fun hA c hc => (h.seen hA c.src (hsrc c hc)).blob) hok
  | @copyOne scope spec now etag f db hsrc hok =>
    exact duplicate_keeps hb (fun hA => (h.seen hA spec.src hsrc).blob) hok
  | copyTree hsrc hok =>
    exact batchDuplicateToMixedFolders_keeps hb (fun hA c hc => (h.seen hA c.src (hsrc c hc)).blob) hok
  | purge hok => exact purge_keeps hb hok
  | claim hok => exact claimCleanup_keeps hb hok
  | restoreClaim hok => exact restoreClaim_keeps hb hok
  | deleteClaimed hok => exact deleteClaimedBlob_keeps hb hok
  | reconcile hok => exact reconcile_keeps hb hok

theorem inOrder_step (h : InOrder (env.watch counts accounts needs sha) s) (hstep : Step env s s') :
    InOrder (env.watch counts accounts needs sha) s' := by
  have hkeep := step_keeps h hstep
  refine ⟨hkeep.finish, ?_⟩
  intro hA f hf
  have hold : f ∈ s.loaded ∨ f ∈ s.db.files.rows ∧ s'.db = s.db := by
    cases hstep with
    | load hfile =>
      rcases mem_cons.mp hf with rfl | hf
      · exact .inr ⟨hfile, rfl⟩
      · exact .inl hf
    | _ => exact .inl hf
  rcases hold with hf | ⟨hf, heq⟩
  · exact (h.seen hA f hf).later hkeep.since
  · rw [heq]
    exact (h.load hf).seen hA f mem_cons_self

/-- **Every run keeps the books.** -/
theorem inOrder_run {db : Db} (h : Consistent (env.watch counts accounts needs sha) db)
    (hrun : Reach env db s) : InOrder (env.watch counts accounts needs sha) s := by
  induction hrun with
  | start => exact ⟨h, by simp⟩
  | step _ hstep ih => exact inOrder_step ih hstep

/-! ### A short run

A user with a quota of ten bytes stores the one-byte file `a.txt` and then overwrites it with the same
byte: the second store adopts the blob of the first. -/

theorem ledger_empty : Ledger .empty .empty .empty ∅ := by
  refine ⟨?_, ?_, ?_, ?_, ?_, ?_, ?_, ?_, ?_⟩ <;> intro x hx <;> exact absurd hx not_mem_nil

/-- The SHA-256 digest of the byte `a`. -/
def digestOfA : String := "ca978112ca1bbdcafac231b39a23dc4da786eff8147c4e72b9807785afee48bb"

def sampleEnv : Env where
  nextCopyName := fun name => name ++ " (1)"
  normalizeName := id
  digest := fun _ => digestOfA
  contents := {[97]}

def emptyDb : Db where
  blobs := .empty
  files := .empty
  histories := .empty
  revisions := .empty
  usage := ⟨[{ scope := .personal 1, storageUsed := 0, storageQuota := 10 }], by decide⟩

def storeA (target : StoreTarget) : Txn File :=
  storeFromTemp sampleEnv.nextCopyName (.personal 1)
    ((Body.content [97] "ca/97" 1).temp sampleEnv) target "text/plain" 5 "etag"

/-- The database after a transaction that commits. -/
def committed (t : Txn File) (db : Db) : Db :=
  match t db with
  | .ok (_, db') => db'
  | .error _ => db

def storedDb : Db := committed (storeA (.newFile none "a.txt" .exact)) emptyDb

def storedFile : File :=
  { id := 1, ownerUserId := some 1, teamId := none, folderId := none, name := "a.txt", blobId := 1
    size := 1, mimeType := "text/plain", updatedAt := 5 }

def overwrittenDb : Db := committed (storeA (.overwrite storedFile none {})) storedDb

theorem storeA_step {target : StoreTarget} {db db' : Db} {f : File}
    (hok : storeA target db = .ok (f, db')) : Step sampleEnv { db } { db := db' } := by
  have hsent : (Body.content [97] "ca/97" 1).Sent sampleEnv := Set.mem_singleton _
  exact .store hsent hok

theorem sample_run : Reach sampleEnv emptyDb { db := overwrittenDb } := by
  have hnew : storeA (.newFile none "a.txt" .exact) emptyDb = .ok (storedFile, storedDb) := rfl
  have hover : storeA (.overwrite storedFile none {}) storedDb = .ok (storedFile, overwrittenDb) := rfl
  exact .step (.step .start (storeA_step hnew)) (storeA_step hover)

theorem overwritten_ledger : Ledger overwrittenDb.files overwrittenDb.histories overwrittenDb.revisions ∅ := by
  have hstart : Consistent (sampleEnv.watch False False id False.elim) emptyDb :=
    ⟨ledger_empty, False.elim, False.elim, .refl emptyDb⟩
  exact (inOrder_run hstart sample_run).books.ledger

theorem sampleEnv_sha256 : sampleEnv.Sha256 := by
  have hdigest : isContentSha256BlobKey digestOfA = true := by decide
  refine ⟨fun _ _ => hdigest, ?_⟩
  intro c hc c' hc' _
  rw [Set.mem_singleton_iff.mp hc, Set.mem_singleton_iff.mp hc']

/-! ### The revision ledger -/

/-- What a file's revisions look like: one history, a numbered set of revisions, the newest unretired
one as head with the columns of the file, and a walk along the predecessors that visits exactly the
unretired ones, newest first. -/
structure HasLedger (db : Db) (f : File) (h : FileRevisionHistory) (current : FileRevision)
    (walk : List FileRevision) : Prop where
  history : h ∈ db.histories.rows ∧ h.fileId = some f.id
  unique : ∀ h' ∈ db.histories.rows, h'.fileId = some f.id → h' = h
  distinct : ∀ r ∈ db.revisions.rows, ∀ r' ∈ db.revisions.rows, r.historyId = h.id →
    r'.historyId = h.id → r.sequence = r'.sequence → r = r'
  below : ∀ r ∈ db.revisions.rows, r.historyId = h.id → r.sequence < h.nextSequence
  head : h.currentRevisionId = some current.id ∧ db.revisions.get current.id = some current ∧
    current.historyId = h.id ∧ current.retired = false
  greatest : ∀ r ∈ db.revisions.rows, r.historyId = h.id → r.retired = false → r.sequence ≤ current.sequence
  columns : current.blobId = some f.blobId ∧ current.logicalSize = f.size ∧ current.mimeType = some f.mimeType
  walked : Follows db.revisions.get FileRevision.predecessorRevisionId h.currentRevisionId walk
  visits : ∀ r, r ∈ walk ↔ r ∈ db.revisions.rows ∧ r.historyId = h.id ∧ r.retired = false
  falling : walk.Pairwise fun a b => b.sequence < a.sequence
  ends : ∃ last, walk.getLast? = some last ∧ last.predecessorRevisionId = none

theorem Ledger.hasLedger {db : Db} (L : Ledger db.files db.histories db.revisions ∅) {f : File}
    (hf : f ∈ db.files.rows) : ∃ h current walk, HasLedger db f h current walk := by
  obtain ⟨h, hh, hhf⟩ := L.kept f hf (Set.notMem_empty _)
  obtain ⟨r, l, hl, hp⟩ := L.chain f hf h hh hhf
  obtain ⟨hr, hrh, hret⟩ := (hl.mem r).mp mem_cons_self
  have hwalk : Follows db.revisions.get FileRevision.predecessorRevisionId h.currentRevisionId (r :: l) := by
    rw [hl.head]
    exact follows_of_linked hl.linked fun x hx => Table.get_of_mem ((hl.mem x).mp hx).1
  refine ⟨h, r, r :: l, ⟨hh, hhf⟩, ?_, ?_, L.below h hh, ?_, ?_, ?_, hwalk, hl.mem, hl.falling, ?_⟩
  · intro h' hh' hhf'
    exact L.one h' hh' h hh f.id hhf' hhf
  · intro x hx y hy hxh hyh hseq
    exact L.distinct x hx y hy (hxh.trans hyh.symm) hseq
  · exact ⟨hl.head, Table.get_of_mem hr, hrh, hret⟩
  · intro x hx hxh hxret
    rcases mem_cons.mp ((hl.mem x).mpr ⟨hx, hxh, hxret⟩) with rfl | hxl
    · exact le_refl _
    · exact le_of_lt ((pairwise_cons.mp hl.falling).1 x hxl)
  · exact ⟨hp.blob, hp.size, hp.mime⟩
  · exact hwalk.getLast (cons_ne_nil _ _)

/-- **Revision ledger.** In every state of every run each file has its one orderly history. -/
theorem revision_ledger {env : Env} {db : Db} {s : Server}
    (hstart : Ledger db.files db.histories db.revisions ∅) (hrun : Reach env db s) :
    ∀ f ∈ s.db.files.rows, ∃ h current walk, HasLedger s.db f h current walk := by
  have hbooks : Consistent (env.watch False False id False.elim) db := ⟨hstart, False.elim, False.elim, .refl db⟩
  intro f hf
  exact (inOrder_run hbooks hrun).books.ledger.hasLedger hf

/-- The file that was stored twice has two revisions. -/
theorem revision_ledger_overwritten : overwrittenDb.revisions.rows.length = 2 ∧
      ∀ f ∈ overwrittenDb.files.rows, ∃ h current walk, HasLedger overwrittenDb f h current walk :=
  ⟨rfl, revision_ledger ledger_empty sample_run⟩

/-! ### Reference counts -/

/-- The number of unretired revisions whose `blob_id` is `k`. -/
def unretiredRefs (db : Db) (k : ℕ) : ℕ := db.revisions.rows.countP fun r => r.retired = false ∧ r.blobId = some k

theorem unretiredRefs_eq (db : Db) (k : ℕ) : (unretiredRefs db k : ℤ) = refs db.revisions k := by
  unfold unretiredRefs refs Table.total
  induction db.revisions.rows with
  | nil => rfl
  | cons r l ih =>
    rw [map_cons, sum_cons, ← ih, countP_cons]
    unfold liveRef
    by_cases hr : r.retired = false ∧ r.blobId = some k
    · simp [hr, add_comm]
    · simp [hr]

/-- Every unretired revision refers to a blob row. -/
def NoDangling (db : Db) : Prop :=
  ∀ r ∈ db.revisions.rows, r.retired = false → ∀ k, r.blobId = some k → ∃ b, db.blobs.get k = some b

theorem refs_of_gone {db : Db} {k : ℕ} (hfk : NoDangling db) (hk : db.blobs.get k = none) : refs db.revisions k = 0 := by
  rw [← unretiredRefs_eq, Nat.cast_eq_zero]
  unfold unretiredRefs
  rw [countP_eq_zero]
  intro r hr hp
  rw [decide_eq_true_eq] at hp
  obtain ⟨b, hb⟩ := hfk r hr hp.1 k hp.2
  rw [hk] at hb
  simp at hb

theorem balanced_of_exact {db : Db} (hrefs : ∀ b ∈ db.blobs.rows, b.refCount = unretiredRefs db b.id)
    (hfk : NoDangling db) : Balanced db.blobs db.revisions 0 := by
  constructor
  · intro k b hb
    obtain rfl : b.id = k := Table.key_of_get hb
    left
    rw [hrefs b (Table.mem_of_get hb), unretiredRefs_eq, Pi.zero_apply, add_zero]
  · intro k hk
    exact ⟨refs_of_gone hfk hk, rfl⟩

theorem exact_of_balanced {db : Db} (hbal : Balanced db.blobs db.revisions 0) :
    (∀ b ∈ db.blobs.rows, b.refCount = unretiredRefs db b.id ∨ (b.refCount = -1 ∧ unretiredRefs db b.id = 0)) ∧
      NoDangling db := by
  constructor
  · intro b hb
    rcases hbal.row b.id b (Table.get_of_mem hb) with hrow | ⟨hclaim, hzero, _⟩
    · left
      rw [hrow, unretiredRefs_eq, Pi.zero_apply, add_zero]
    · right
      refine ⟨hclaim, ?_⟩
      rw [← unretiredRefs_eq] at hzero
      exact Nat.cast_eq_zero.mp hzero
  · intro r hr hret k hk
    rcases hb : db.blobs.get k with _ | b
    · have hpos := refs_pos_of_mem hr hret hk
      have hzero := (hbal.gone k hb).1
      omega
    · exact ⟨b, rfl⟩

theorem balanced_run {env : Env} {db : Db} {s : Server} (hledger : Ledger db.files db.histories db.revisions ∅)
    (hbal : Balanced db.blobs db.revisions 0) (hrun : Reach env db s) : Balanced s.db.blobs s.db.revisions 0 := by
  have hbooks : Consistent (env.watch True False (fun h => h.elim) False.elim) db :=
    ⟨hledger, fun _ => hbal, False.elim, .refl db⟩
  exact (inOrder_run hbooks hrun).books.balanced trivial

/-- **Reference counts are exact**, in every state of every run. -/
theorem ref_counts_exact {env : Env} {db : Db} {s : Server} (hledger : Ledger db.files db.histories db.revisions ∅)
    (hrefs : ∀ b ∈ db.blobs.rows, b.refCount = unretiredRefs db b.id) (hfk : NoDangling db)
    (hrun : Reach env db s) :
    (∀ b ∈ s.db.blobs.rows, b.refCount = unretiredRefs s.db b.id ∨
      (b.refCount = -1 ∧ unretiredRefs s.db b.id = 0)) ∧ NoDangling s.db :=
  exact_of_balanced (balanced_run hledger (balanced_of_exact hrefs hfk) hrun)

/-- One blob, counted twice. -/
theorem ref_counts_overwritten : overwrittenDb.blobs.rows.map FileBlob.refCount = [2] ∧
      (∀ b ∈ overwrittenDb.blobs.rows, b.refCount = unretiredRefs overwrittenDb b.id ∨
        (b.refCount = -1 ∧ unretiredRefs overwrittenDb b.id = 0)) ∧ NoDangling overwrittenDb :=
  ⟨rfl, ref_counts_exact ledger_empty (fun _ hb => absurd hb not_mem_nil)
    (fun _ hr => absurd hr not_mem_nil) sample_run⟩

/-! ### Storage accounts -/

/-- A database as the server leaves it, apart from its accounts: the ledger and the reference counts
are in order, a revision is as long as its blob, and a blob as long as the content it is named
after. -/
structure Intact (env : Env) (db : Db) : Prop where
  ledger : Ledger db.files db.histories db.revisions ∅
  counts : ∀ b ∈ db.blobs.rows, b.refCount = unretiredRefs db b.id
  noDangling : NoDangling db
  sized : ∀ r ∈ db.revisions.rows, r.retired = false → ∀ k b, r.blobId = some k →
    db.blobs.get k = some b → b.size = r.logicalSize
  stored : ∀ b ∈ db.blobs.rows, b.backing = .stored → ∀ c ∈ env.contents, b.hash = env.digest c → b.size = c.length
  empties : ∀ b ∈ db.blobs.rows, b.backing = .virtualEmpty → b.size = 0

/-- **Storage accounts are exact and bounded.** In every state of every run a workspace's
`storage_used` is the sum of `logical_size` over the unretired revisions of its files, the clamp of
`update_storage_used` was never taken, and a step that raises a usage leaves it within a positive
quota. -/
theorem storage_accounts_exact {env : Env} {db : Db} {s : Server} (sha : env.Sha256) (hintact : Intact env db)
    (hused : ∀ u ∈ db.usage.rows, u.storageUsed = usedBy db.files db.histories db.revisions u.scope)
    (hfloors : db.floorsTaken = 0) (hrun : Reach env db s) :
    (∀ u ∈ s.db.usage.rows, u.storageUsed = usedBy s.db.files s.db.histories s.db.revisions u.scope) ∧
    s.db.floorsTaken = 0 ∧
    ∀ s', Step env s s' → ∀ u ∈ s.db.usage.rows, ∀ u' ∈ s'.db.usage.rows, u'.scope = u.scope →
      u.storageUsed < u'.storageUsed → 0 < u'.storageQuota → u'.storageUsed ≤ u'.storageQuota := by
  have hgen : ∀ b ∈ db.blobs.rows, (env.watch True True id fun _ => sha).Genuine b := by
    intro b hb
    unfold Watched.Genuine
    split
    · rename_i hstored
      exact hintact.stored b hb hstored
    · rename_i hempty
      exact hintact.empties b hb hempty
  have hbooks : Consistent (env.watch True True id fun _ => sha) db := by
    refine ⟨hintact.ledger, fun _ => balanced_of_exact hintact.counts hintact.noDangling,
      fun _ => ⟨?_, hintact.sized, hgen, hfloors⟩, .refl db⟩
    intro w u hu
    obtain rfl : u.scope = w := Table.key_of_get hu
    rw [hused u (Table.mem_of_get hu), Pi.zero_apply, add_zero]
  have hin := inOrder_run hbooks hrun
  have acc := hin.books.accounts trivial
  refine ⟨?_, acc.floors, ?_⟩
  · intro u hu
    rw [acc.exact u.scope u (Table.get_of_mem hu), Pi.zero_apply, add_zero]
  · intro s' hstep u hu u' hu' hscope hgrew hquota
    obtain ⟨v, hv, hsame, hbound⟩ := (step_keeps hin hstep).since.usage u'.scope u' (Table.get_of_mem hu')
    obtain rfl : v = u := by
      rw [hscope, Table.get_of_mem hu] at hv
      exact (some.inj hv).symm
    omega

theorem emptyDb_intact : Intact sampleEnv emptyDb := by
  refine ⟨ledger_empty, ?_, ?_, ?_, ?_, ?_⟩ <;> intro x hx <;> exact absurd hx not_mem_nil

/-- Two revisions of one byte each. -/
theorem storage_accounts_overwritten : overwrittenDb.usage.rows.map StorageUsage.storageUsed = [2] ∧
      (∀ u ∈ overwrittenDb.usage.rows, u.storageUsed =
        usedBy overwrittenDb.files overwrittenDb.histories overwrittenDb.revisions u.scope) ∧
      overwrittenDb.floorsTaken = 0 := by
  have hused : ∀ u ∈ emptyDb.usage.rows,
      u.storageUsed = usedBy emptyDb.files emptyDb.histories emptyDb.revisions u.scope := by
    intro u hu
    obtain rfl := mem_singleton.mp hu
    rfl
  obtain ⟨hexact, hfloors, _⟩ := storage_accounts_exact sampleEnv_sha256 emptyDb_intact hused rfl sample_run
  exact ⟨rfl, hexact, hfloors⟩

/-! ### Identities -/

/-- **Rows keep their identity.** Between any two moments of a run no file changes its workspace and no blob its content, no
id is used a second time, and a usage that grows stays within a positive quota, which itself stays. -/
theorem rows_keep_identity {env : Env} {db : Db} {s s' : Server} (hledger : Ledger db.files db.histories db.revisions ∅)
    (hrun : Reach env db s) (hlater : Relation.ReflTransGen (Step env) s s') : Extends s.db s'.db := by
  have hstart : Consistent (env.watch False False id False.elim) db := ⟨hledger, False.elim, False.elim, .refl db⟩
  have hbooks := inOrder_run hstart hrun
  have hextends : InOrder (env.watch False False id False.elim) s' ∧ Extends s.db s'.db := by
    induction hlater with
    | refl => exact ⟨hbooks, .refl s.db⟩
    | tail _ hstep ih => exact ⟨inOrder_step ih.1 hstep, ih.2.trans (step_keeps ih.1 hstep).since⟩
  exact hextends.2

/-- `a.txt` before and after it is overwritten. -/
theorem rows_keep_identity_overwritten :
    storedDb.revisions.rows.length < overwrittenDb.revisions.rows.length ∧ Extends storedDb overwrittenDb := by
  have hnew : storeA (.newFile none "a.txt" .exact) emptyDb = .ok (storedFile, storedDb) := rfl
  have hover : storeA (.overwrite storedFile none {}) storedDb = .ok (storedFile, overwrittenDb) := rfl
  have hstored : Reach sampleEnv emptyDb { db := storedDb } := .step .start (storeA_step hnew)
  exact ⟨by decide, rows_keep_identity ledger_empty hstored (.single (storeA_step hover))⟩

end AsterDrive.Db
