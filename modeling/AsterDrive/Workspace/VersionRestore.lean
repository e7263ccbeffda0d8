import AsterDrive.Db.UserProperties
import AsterDrive.Workspace.Preservation

/-!
# Workspace.VersionRestore — an old version as the current one

`restore_version_inner` charges the workspace, takes one more reference on the blob of the version, gives the file the
properties of the version, and appends a revision, which takes a snapshot of these properties again. All of it is one
transaction (`restoreTransaction_ok`). After the commit it looks up the blob that the file had before, in order to delete
its thumbnail; if that fails, the call reports an error although the version is restored (`version_restore`).

The name of the actor, activity records, thumbnails and events are left out.
-/

namespace AsterDrive.Workspace.VersionRestore

open Db Db.UserProperties List Table FileRevisionProperty

/-! ### Transactions over the properties -/

structure PropertyDb where
  db : Db
  properties : Properties
  snapshots : Snapshots

abbrev PropertyTxn := StateT PropertyDb (Except AsterError)

/-- A statement that does not touch the properties. -/
def onDb {α : Type} (x : Txn α) : PropertyTxn α := fun s =>
  match x s.db with
  | .error e => .error e
  | .ok (a, db) => .ok (a, { s with db })

/-- The orders in which the two tables return their rows. -/
structure RowOrders where
  properties : RowOrder EntityProperty := .stored
  snapshots : RowOrder FileRevisionProperty := .stored

variable (orders : RowOrders)

def insertSnapshots (rows : List FileRevisionProperty) : PropertyTxn Unit := fun s =>
  match s.snapshots.insertAll rows with
  | some snapshots => .ok ((), { s with snapshots })
  | none => .error (uniqueViolation "file_revision_properties")

def snapshotUserProperties (fileId revisionId : ℕ) : PropertyTxn Unit := fun s =>
  let properties := findUserProperties orders.properties s.properties [fileId]
  if properties = [] then .ok ((), s)
  else
    match s.db.revisions.get revisionId with
    | none => .error (internalError "new revision disappeared before snapshot")
    | some _ => insertSnapshots (properties.map fun p => p.snapshot revisionId) s

/-- `revision_repo::find_properties` -/
def findProperties (t : Snapshots) (revisionId : ℕ) : List FileRevisionProperty :=
  orders.snapshots.sort (t.rows.filter fun q => q.revisionId = revisionId)

def restoreUserProperties (fileId revisionId : ℕ) : PropertyTxn Unit := fun s =>
  let kept := s.properties.deleteWhere fun p => p.isUserOf fileId
  match kept.insertAll ((findProperties orders s.snapshots revisionId).map fun q => q.restored fileId) with
  | some properties => .ok ((), { s with properties })
  | none => .error (uniqueViolation "idx_entity_properties_unique")

def appendLocked (fileId : ℕ) (history : FileRevisionHistory) (input : NewRevision) : PropertyTxn FileRevision := do
  let revision ← onDb (insertRevision history.id history.nextSequence history.currentRevisionId input)
  snapshotUserProperties orders fileId revision.id
  onDb (ensure (revision.sequence < Db.i64Max) (internalError "file revision sequence exhausted"))
  onDb (advanceHead history.id revision)
  pure revision

def append (fileId : ℕ) (expectedCurrentRevisionId : Option ℕ) (input : NewRevision) : PropertyTxn FileRevision := do
  let history ← onDb (lockHistoryByFileId fileId)
  onDb (ensure (expectedCurrentRevisionId = none ∨ history.currentRevisionId = expectedCurrentRevisionId) headChanged)
  appendLocked orders fileId history input

/-- The transaction of `restore_version_inner`, and whether the file's blob changes. -/
def restoreTransaction (scope : WorkspaceStorageScope) (file : File) (revisionId now : ℕ) (etag : String) :
    PropertyTxn (File × Bool) := do
  let current ← onDb (enforceFileMutation file)
  onDb (ensure (current.blobId = file.blobId)
    (fileModifiedDuringWrite "file changed while the version restore was being prepared"))
  let history ← onDb (lockHistoryByFileId file.id)
  let target ← onDb (loadRevisionForFile file.id revisionId)
  let targetBlobId ← onDb (orFail target.blobId (recordNotFound "version content has been purged"))
  let targetMime := target.mimeType.getD current.mimeType
  onDb (updateStorageUsedOn scope target.logicalSize)
  onDb (incrementOn targetBlobId)
  restoreUserProperties orders file.id target.id
  let _ ← append orders file.id history.currentRevisionId
    { blobId := targetBlobId, logicalSize := target.logicalSize, mimeType := targetMime, etag }
  let updated ← onDb (updateFileContent current targetBlobId target.logicalSize targetMime now)
  pure (updated, decide (targetBlobId ≠ file.blobId))

/-- `restore_version_inner`: `commit` is the answer to the commit, which rolls back when it fails, and `previousBlob` the
answer to the look-up that follows it. -/
def restoreVersionInner (scope : WorkspaceStorageScope) (file : File) (revisionId now : ℕ) (etag : String)
    (commit : Except AsterError Unit) (previousBlob : Except AsterError FileBlob) (s : PropertyDb) :
    Except AsterError File × PropertyDb :=
  match restoreTransaction orders scope file revisionId now etag s, commit with
  | .error e, _ => (.error e, s)
  | .ok _, .error e => (.error e, s)
  | .ok ((updated, changed), s'), .ok () =>
    if changed then
      match previousBlob with
      | .error e => (.error e, s')
      | .ok _ => (.ok updated, s')
    else (.ok updated, s')

/-! ### What a restored version is -/

/-- The snapshots hold properties of the user, and belong to revisions. -/
structure PropertyDb.Sound (s : PropertyDb) : Prop where
  user : ∀ q ∈ s.snapshots.rows, isProtectedNamespace q.propertyNamespace = false
  filed : ∀ q ∈ s.snapshots.rows, ∃ r ∈ s.db.revisions.rows, r.id = q.revisionId

structure Restored (s s' : PropertyDb) (scope : WorkspaceStorageScope) (file : File) (v : FileRevision) : Prop where
  content : ∃ current updated k, s.db.files.get file.id = some current ∧ s'.db.files.get file.id = some updated ∧
    v.blobId = some k ∧ updated.blobId = k ∧ updated.size = v.logicalSize ∧
    updated.mimeType = v.mimeType.getD current.mimeType
  properties : ∀ p, p.isUserOf file.id = true →
    (p ∈ s'.properties.rows ↔ ∃ q ∈ s.snapshots.rows, q.revisionId = v.id ∧ q.restored file.id = p)
  otherProperties : ∀ p, p.isUserOf file.id = false → (p ∈ s'.properties.rows ↔ p ∈ s.properties.rows)
  head : ∃ history head, findHistoryByFileId s'.db file.id = some history ∧ history.currentRevisionId = some head.id ∧
    head ∈ s'.db.revisions.rows ∧ (∀ r ∈ s.db.revisions.rows, r.id ≠ head.id) ∧ head.historyId = history.id ∧
    head.blobId = v.blobId ∧ head.logicalSize = v.logicalSize ∧
    ∀ propertyNamespace propertyName xmlValue, ⟨head.id, propertyNamespace, propertyName, xmlValue⟩ ∈ s'.snapshots.rows ↔
      ⟨v.id, propertyNamespace, propertyName, xmlValue⟩ ∈ s.snapshots.rows
  older : ∀ r ∈ s.db.revisions.rows, r ∈ s'.db.revisions.rows ∧
    ∀ q : FileRevisionProperty, q.revisionId = r.id → (q ∈ s'.snapshots.rows ↔ q ∈ s.snapshots.rows)
  reference : ∀ k b, s.db.blobs.get k = some b →
    s'.db.blobs.get k = some { b with refCount := b.refCount + if v.blobId = some k then 1 else 0 }
  usage : ∀ w u, s.db.usage.get w = some u →
    s'.db.usage.get w = some (if w = scope.resource then { u with storageUsed := u.storageUsed + v.logicalSize } else u)

/-- The version can be restored: the file is as it was loaded, the version is a live one of its history and still has a
blob, and there is room for it in the workspace and in the history. -/
structure Restorable (s : PropertyDb) (scope : WorkspaceStorageScope) (file : File) (v : FileRevision) : Prop where
  current : ∃ current, s.db.files.get file.id = some current ∧ current.workspace = file.workspace ∧
    current.blobId = file.blobId
  history : ∃ history, findHistoryByFileId s.db file.id = some history ∧ v.historyId = history.id ∧
    history.nextSequence < Db.i64Max ∧ ∀ r ∈ s.db.revisions.rows, ¬ (r.historyId = history.id ∧ r.sequence = history.nextSequence)
  live : v.retired = false
  blob : ∃ k b, v.blobId = some k ∧ s.db.blobs.get k = some b ∧ 0 ≤ b.refCount
  room : ∃ u, s.db.usage.get scope.resource = some u ∧
    (u.storageQuota = 0 ∨ u.storageUsed + (v.logicalSize : ℤ) ≤ u.storageQuota)

section

variable {orders} {s s' s1 : PropertyDb} {α : Type} {a : α} {x : Txn α} {fileId revisionId : ℕ} {u : Unit}
variable {history : FileRevisionHistory} {input : NewRevision} {r : FileRevision} {p : EntityProperty}

theorem onDb_ok : onDb x s = .ok (a, s') ↔ ∃ db, x s.db = .ok (a, db) ∧ s' = { s with db } := by
  unfold onDb
  cases x s.db with
  | error e => simp
  | ok found =>
    obtain ⟨b, db⟩ := found
    constructor
    · intro h
      cases h
      exact ⟨db, rfl, rfl⟩
    · rintro ⟨db', h, rfl⟩
      cases h
      rfl

theorem bind_onDb_ok {β : Type} {b : β} {f : α → StateT PropertyDb (Except AsterError) β} :
    (onDb x >>= f) s = .ok (b, s') ↔ ∃ a db, x s.db = .ok (a, db) ∧ f a { s with db } = .ok (b, s') := by
  simp [bind_state_ok, onDb_ok, and_assoc]

theorem snapshotUserProperties_ok (h : snapshotUserProperties orders fileId revisionId s = .ok (u, s')) :
    s'.db = s.db ∧ s'.properties = s.properties ∧ s'.snapshots.rows = s.snapshots.rows ++
        (findUserProperties orders.properties s.properties [fileId]).map fun p => p.snapshot revisionId := by
  unfold snapshotUserProperties at h
  dsimp only at h
  split_ifs at h with hempty
  · cases h
    rw [hempty]
    exact ⟨rfl, rfl, (append_nil _).symm⟩
  · split at h
    · cases h
    · unfold insertSnapshots at h
      split at h
      · rename_i snapshots hinsert
        cases h
        exact ⟨rfl, rfl, insertAll_eq_some hinsert⟩
      · cases h

theorem mem_findProperties {t : Snapshots} {q : FileRevisionProperty} :
    q ∈ findProperties orders t revisionId ↔ q ∈ t.rows ∧ q.revisionId = revisionId := by
  unfold findProperties
  rw [(orders.snapshots.perm _).mem_iff, mem_filter, decide_eq_true_eq]

/-- The user's properties of the file are those of the snapshot, and no other property changes. -/
theorem restoreUserProperties_ok (h : restoreUserProperties orders fileId revisionId s = .ok (u, s'))
    (huser : ∀ q ∈ s.snapshots.rows, isProtectedNamespace q.propertyNamespace = false) :
    s'.db = s.db ∧ s'.snapshots = s.snapshots ∧ (∀ p, p.isUserOf fileId = true →
        (p ∈ s'.properties.rows ↔ ∃ q ∈ s.snapshots.rows, q.revisionId = revisionId ∧ q.restored fileId = p)) ∧
      ∀ p, p.isUserOf fileId = false → (p ∈ s'.properties.rows ↔ p ∈ s.properties.rows) := by
  unfold restoreUserProperties at h
  dsimp only at h
  split at h
  · rename_i properties hinsert
    cases h
    have hrows := insertAll_eq_some hinsert
    refine ⟨rfl, rfl, fun p hof => ?_, fun p hof => ?_⟩
    · show p ∈ properties.rows ↔ _
      rw [hrows, mem_append, mem_deleteWhere, hof, mem_map]
      simp only [mem_findProperties, Bool.true_eq_false, and_false, false_or, and_assoc]
    · show p ∈ properties.rows ↔ _
      rw [hrows, mem_append, mem_deleteWhere, hof, mem_map]
      constructor
      · rintro (⟨hmem, -⟩ | ⟨q, hq, rfl⟩)
        · exact hmem
        · have hprotected := huser q ((mem_findProperties).mp hq).1
          rw [restored_isUserOf hprotected] at hof
          cases hof
      · exact fun hmem => .inl ⟨hmem, rfl⟩
  · cases h

theorem appendLocked_ok (h : appendLocked orders fileId history input s = .ok (r, s')) :
    s'.db = appended s.db history input ∧ s'.properties = s.properties ∧ s'.snapshots.rows = s.snapshots.rows ++
        (findUserProperties orders.properties s.properties [fileId]).map fun p => p.snapshot s.db.revisions.next := by
  obtain ⟨revision, db1, hinserted, h⟩ := (bind_onDb_ok).mp h
  obtain ⟨⟨⟩, s2, hsnapshot, h⟩ := bind_state_ok.mp h
  obtain ⟨hdb, hproperties, hsnapshots⟩ := snapshotUserProperties_ok hsnapshot
  obtain ⟨⟨⟩, db3, hensured, h⟩ := (bind_onDb_ok).mp h
  obtain ⟨⟨⟩, db4, hadvanced, h⟩ := (bind_onDb_ok).mp h
  obtain ⟨rfl, rfl⟩ := pure_state_ok.mp h
  -- the statements on the ledger are those of `append_locked` without the snapshot
  have hledger : Db.appendLocked history input s.db = .ok (revision, db4) := by
    rw [hdb] at hensured
    refine bind_txn_ok.mpr ⟨revision, db1, hinserted, ?_⟩
    exact bind_txn_ok.mpr ⟨_, db3, hensured, bind_txn_ok.mpr ⟨_, db4, hadvanced, rfl⟩⟩
  obtain ⟨mk, hmk, rfl, -, -⟩ := insertRevision_ok hinserted
  rw [hmk] at hsnapshots
  exact ⟨Db.appendLocked_ok hledger, hproperties, hsnapshots⟩

theorem appendLocked_room (h : appendLocked orders fileId history input s = .ok (r, s')) :
    history.nextSequence < Db.i64Max ∧
      ∀ r ∈ s.db.revisions.rows, ¬ (r.historyId = history.id ∧ r.sequence = history.nextSequence) := by
  obtain ⟨revision, db1, hinserted, h⟩ := (bind_onDb_ok).mp h
  obtain ⟨⟨⟩, s2, -, h⟩ := bind_state_ok.mp h
  obtain ⟨⟨⟩, db3, hensured, -⟩ := (bind_onDb_ok).mp h
  obtain ⟨hroom, -⟩ := ensure_ok.mp hensured
  obtain ⟨mk, hmk, rfl, -, rfl⟩ := insertRevision_ok hinserted
  refine ⟨hroom, fun r hr htaken => ?_⟩
  unfold insertRevision at hinserted
  rw [if_pos (any_eq_true.mpr ⟨r, hr, decide_eq_true htaken⟩)] at hinserted
  cases hinserted

theorem lockHistory_find {db db' : Db} (h : lockHistoryByFileId fileId db = .ok (history, db')) :
    findHistoryByFileId db fileId = some history := by
  replace h := bind_get_ok.mp h
  exact (orFail_ok.mp h).1

theorem loadRevision_find {db db' : Db} (h : loadRevisionForFile fileId revisionId db = .ok (r, db'))
    (hhistory : findHistoryByFileId db fileId = some history) : r.historyId = history.id := by
  obtain ⟨found, db1, hfind, h⟩ := bind_txn h
  obtain ⟨locked, db2, hlock, hfind⟩ := bind_txn hfind
  obtain ⟨read, db3, -, hfind⟩ := bind_txn hfind
  cases hfind
  obtain rfl := Option.some.inj ((lockHistory_find hlock).symm.trans hhistory)
  obtain ⟨hlive, -⟩ := orFail_ok.mp h
  exact (of_decide_eq_true (Option.filter_eq_some_iff.mp hlive).2).1

theorem findHistory_appended {db : Db} (h : findHistoryByFileId db fileId = some history) :
    findHistoryByFileId (appended db history input) fileId =
      some (withHead db.revisions.next (history.nextSequence + 1) history) := by
  unfold findHistoryByFileId at h ⊢
  show (db.histories.rows.map fun x => if decide (x.id = history.id) then
    withHead db.revisions.next (history.nextSequence + 1) x else x).find? _ = _
  rw [find?_map]
  have hsame : ((fun x : FileRevisionHistory => decide (x.fileId = some fileId)) ∘ fun x =>
      if decide (x.id = history.id) then withHead db.revisions.next (history.nextSequence + 1) x else x) =
      fun x => decide (x.fileId = some fileId) := by
    funext x
    simp only [Function.comp_apply]
    split_ifs
    · rfl
    · rfl
  rw [hsame, h]
  simp

/-! ### The transaction -/

theorem charge_ok {db db' : Db} {scope : WorkspaceStorageScope} {n : ℕ}
    (h : updateStorageUsedOn scope n db = .ok (u, db')) :
    (∃ usage floorsTaken, db' = { db with usage, floorsTaken }) ∧ (∃ row, db.usage.get scope.resource = some row ∧
        (row.storageQuota = 0 ∨ row.storageUsed + (n : ℤ) ≤ row.storageQuota)) ∧
      ∀ w x, db.usage.get w = some x →
        db'.usage.get w = some (if w = scope.resource then { x with storageUsed := x.storageUsed + n } else x) := by
  unfold updateStorageUsedOn updateStorageUsedFor at h
  split at h
  · cases h
  rename_i usage floored hupdate
  cases h
  obtain ⟨row, hrow, hroom, hget, -⟩ := updateStorageUsed_ok hupdate
  have hnonneg : (0 : ℤ) ≤ n := Int.natCast_nonneg n
  refine ⟨⟨_, _, rfl⟩, ⟨row, hrow, hroom hnonneg⟩, fun w x hx => ?_⟩
  show usage.get w = _
  rw [hget]
  by_cases hw : w = scope.resource
  · rw [hw, hrow] at hx
    cases hx
    rw [if_pos hw, if_pos hw]
    unfold nextStorageUsed
    rw [if_pos hnonneg]
  · rw [if_neg hw, if_neg hw]
    exact hx

theorem increment_ok {db db' : Db} {blobId : ℕ} (h : incrementOn blobId db = .ok (u, db')) :
    (∃ blobs, db' = { db with blobs }) ∧ (∃ b, db.blobs.get blobId = some b ∧ 0 ≤ b.refCount) ∧
      ∀ k b, db.blobs.get k = some b →
        db'.blobs.get k = some { b with refCount := b.refCount + if blobId = k then 1 else 0 } := by
  obtain ⟨blobs, hblobs, rfl⟩ := onBlobs_ok h
  obtain ⟨found, hincrement, hfound⟩ := map_ok_iff.mp hblobs
  cases hfound
  obtain ⟨hshifted, hpresent⟩ := Db.increment_ok hincrement
  refine ⟨⟨_, rfl⟩, hpresent, fun k b hb => ?_⟩
  have hold := hshifted.old k b hb
  unfold oneRef at hold
  simp only [eq_comm (a := k)] at hold
  exact hold

theorem mem_appended_snapshots {snapshots : Snapshots} {properties : Properties} {next : ℕ} {fileId : ℕ} (hs : s.Sound)
    (hproperties : ∀ p, p.isUserOf fileId = true →
      (p ∈ properties.rows ↔ ∃ q ∈ s.snapshots.rows, q.revisionId = revisionId ∧ q.restored fileId = p))
    (hsnapshots : snapshots.rows = s.snapshots.rows ++
      (findUserProperties orders.properties properties [fileId]).map fun p => p.snapshot next)
    (q : FileRevisionProperty) :
    q ∈ snapshots.rows ↔ q ∈ s.snapshots.rows ∨ q.revisionId = next ∧ { q with revisionId } ∈ s.snapshots.rows := by
  have hnew : q ∈ (findUserProperties orders.properties properties [fileId]).map (fun p => p.snapshot next) ↔
      q.revisionId = next ∧ { q with revisionId } ∈ s.snapshots.rows := by
    rw [mem_map]
    constructor
    · rintro ⟨p, hp, rfl⟩
      obtain ⟨hmem, fileId', hfile, huser⟩ := mem_findUserProperties.mp hp
      rw [mem_singleton.mp hfile] at huser
      obtain ⟨q', hq', rfl, rfl⟩ := (hproperties p huser).mp hmem
      exact ⟨rfl, hq'⟩
    · rintro ⟨rfl, hmem⟩
      let restored : EntityProperty := ⟨.file, fileId, q.propertyNamespace, q.propertyName, q.xmlValue⟩
      have huser : restored.isUserOf fileId = true :=
        restored_isUserOf (hs.user ⟨revisionId, q.propertyNamespace, q.propertyName, q.xmlValue⟩ hmem)
      refine ⟨restored, mem_findUserProperties.mpr ⟨(hproperties _ huser).mpr ⟨_, hmem, rfl, rfl⟩, fileId, mem_singleton_self _,
        huser⟩, rfl⟩
  rw [hsnapshots, mem_append, hnew]

/-- What the statements of the transaction do to the tables. -/
structure Statements (orders : RowOrders) (s s' : PropertyDb) (scope : WorkspaceStorageScope) (file current updated : File)
    (history : FileRevisionHistory) (v : FileRevision) (k : ℕ) (input : NewRevision) : Prop where
  row : s.db.files.get file.id = some current
  rewritten : s'.db.files.get file.id = some updated
  content : updated.blobId = k ∧ updated.size = v.logicalSize ∧ updated.mimeType = v.mimeType.getD current.mimeType
  locked : findHistoryByFileId s.db file.id = some history
  version : v ∈ s.db.revisions.rows
  restorable : Restorable s scope file v
  present : v.blobId = some k
  same : input.blobId = k ∧ input.logicalSize = v.logicalSize
  headed : ∃ db : Db, db.histories = s.db.histories ∧ db.revisions = s.db.revisions ∧
    s'.db.histories = (appended db history input).histories ∧ s'.db.revisions = (appended db history input).revisions
  properties : ∀ p, p.isUserOf file.id = true →
    (p ∈ s'.properties.rows ↔ ∃ q ∈ s.snapshots.rows, q.revisionId = v.id ∧ q.restored file.id = p)
  otherProperties : ∀ p, p.isUserOf file.id = false → (p ∈ s'.properties.rows ↔ p ∈ s.properties.rows)
  snapshots : s'.snapshots.rows = s.snapshots.rows ++
    (findUserProperties orders.properties s'.properties [file.id]).map fun p => p.snapshot s.db.revisions.next
  reference : ∀ j b, s.db.blobs.get j = some b →
    s'.db.blobs.get j = some { b with refCount := b.refCount + if k = j then 1 else 0 }
  usage : ∀ w x, s.db.usage.get w = some x →
    s'.db.usage.get w = some (if w = scope.resource then { x with storageUsed := x.storageUsed + v.logicalSize } else x)

variable {scope : WorkspaceStorageScope} {file updated : File} {now : ℕ} {etag : String} {changed : Bool}

theorem restoreTransaction_statements (hs : s.Sound)
    (h : restoreTransaction orders scope file revisionId now etag s = .ok ((updated, changed), s')) :
    ∃ current history v k input, v.id = revisionId ∧ v.retired = false ∧ changed = decide (k ≠ file.blobId) ∧
      Statements orders s s' scope file current updated history v k input := by
  obtain ⟨current, db1, henforced, h⟩ := bind_onDb_ok.mp h
  obtain ⟨rfl, hcurrent, hid, hworkspace⟩ := enforceFileMutation_ok henforced
  obtain ⟨⟨⟩, db2, hensured, h⟩ := bind_onDb_ok.mp h
  obtain ⟨hsame, rfl⟩ := ensure_ok.mp hensured
  obtain ⟨locked, db3, hlocked, h⟩ := bind_onDb_ok.mp h
  obtain ⟨rfl, -, -⟩ := lockHistory_ok hlocked
  obtain ⟨v, db4, hloaded, h⟩ := bind_onDb_ok.mp h
  obtain ⟨rfl, hv, hvid, hlive, -⟩ := loadRevision_ok hloaded
  obtain ⟨k, db5, hblob, h⟩ := bind_onDb_ok.mp h
  obtain ⟨hpresent, rfl⟩ := orFail_ok.mp hblob
  obtain ⟨⟨⟩, db6, hcharged, h⟩ := bind_onDb_ok.mp h
  obtain ⟨⟨usage, floorsTaken, rfl⟩, hroom, husage⟩ := charge_ok hcharged
  obtain ⟨⟨⟩, db7, hincremented, h⟩ := bind_onDb_ok.mp h
  obtain ⟨⟨blobs, rfl⟩, ⟨b, hb, hcount⟩, hblobs⟩ := increment_ok hincremented
  obtain ⟨⟨⟩, s8, hrestore, h⟩ := bind_state_ok.mp h
  obtain ⟨hdb8, hsnapshots8, hproperties, hothers⟩ := restoreUserProperties_ok hrestore hs.user
  obtain ⟨head, s9, happend, h⟩ := bind_state_ok.mp h
  obtain ⟨history, db10, hfound, happend⟩ := bind_onDb_ok.mp happend
  obtain ⟨rfl, -, -⟩ := lockHistory_ok hfound
  have hfind := lockHistory_find hfound
  obtain ⟨⟨⟩, db11, hexpected, happend⟩ := bind_onDb_ok.mp happend
  obtain ⟨-, rfl⟩ := ensure_ok.mp hexpected
  obtain ⟨hdb9, hproperties9, hsnapshots9⟩ := appendLocked_ok happend
  obtain ⟨hsequence, hfresh⟩ := appendLocked_room happend
  obtain ⟨updated', db12, hupdated, h⟩ := bind_onDb_ok.mp h
  obtain ⟨hresult, rfl⟩ := pure_state_ok.mp h
  cases hresult
  cases hupdated
  rw [hdb8] at hfind hdb9 hsnapshots9 hfresh
  rw [hproperties9] at *
  have hget : s.db.files.get file.id = some current := hid ▸ get_of_mem hcurrent
  have hhistories := congrArg Db.histories hdb9
  have hrevisions := congrArg Db.revisions hdb9
  let input : NewRevision :=
    { blobId := k, logicalSize := v.logicalSize, mimeType := v.mimeType.getD current.mimeType, etag }
  refine ⟨current, history, v, k, input, hvid, hlive, rfl, ?_⟩
  exact
    { row := hget
      rewritten := by
        show (s9.db.files.updateRows _ _ _).get file.id = _
        rw [SerialTable.get_updateRows, hdb9]
        show (s.db.files.get file.id).map _ = _
        rw [hget, Option.map_some, if_pos (decide_eq_true rfl)]
      content := ⟨rfl, rfl, rfl⟩
      locked := hfind
      version := hv
      restorable :=
        { current := ⟨current, hget, hworkspace, hsame⟩
          history := ⟨history, hfind, loadRevision_find hloaded hfind, hsequence, hfresh⟩
          live := hlive
          blob := ⟨k, b, hpresent, hb, hcount⟩
          room := hroom }
      present := hpresent
      same := ⟨rfl, rfl⟩
      headed := ⟨_, rfl, rfl, hhistories, hrevisions⟩
      properties := hproperties
      otherProperties := hothers
      snapshots := hsnapshots9.trans (by rw [hsnapshots8])
      reference := fun j b hj => by
        show s9.db.blobs.get j = _
        rw [hdb9]
        exact hblobs j b hj
      usage := fun w x hw => by
        show s9.db.usage.get w = _
        rw [hdb9]
        exact husage w x hw }

theorem PropertyDb.Sound.fresh (hs : s.Sound) {q : FileRevisionProperty} (hq : q ∈ s.snapshots.rows) :
    q.revisionId ≠ s.db.revisions.next := by
  obtain ⟨r, hr, hrq⟩ := hs.filed q hq
  have hlt := s.db.revisions.below r hr
  omega

section

variable {current : File} {v : FileRevision} {k : ℕ}
variable (h : Statements orders s s' scope file current updated history v k input)

include h

theorem Statements.revisions_rows : s'.db.revisions.rows = s.db.revisions.rows ++ [nextRevision history input s.db.revisions.next] := by
  obtain ⟨db, -, hrevisions, -, hrows⟩ := h.headed
  rw [hrows]
  show db.revisions.rows ++ [nextRevision history input db.revisions.next] = _
  rw [hrevisions]

theorem Statements.mem_snapshots (hs : s.Sound) (q : FileRevisionProperty) :
    q ∈ s'.snapshots.rows ↔ q ∈ s.snapshots.rows ∨
      q.revisionId = s.db.revisions.next ∧ { q with revisionId := v.id } ∈ s.snapshots.rows :=
  mem_appended_snapshots hs h.properties h.snapshots q

theorem Statements.sound (hs : s.Sound) : s'.Sound := by
  refine ⟨fun q hq => ?_, fun q hq => ?_⟩
  · obtain hold | ⟨-, hsame⟩ := (h.mem_snapshots hs q).mp hq
    · exact hs.user q hold
    · exact hs.user ⟨v.id, q.propertyNamespace, q.propertyName, q.xmlValue⟩ hsame
  · rw [h.revisions_rows]
    obtain hold | ⟨hnext, -⟩ := (h.mem_snapshots hs q).mp hq
    · obtain ⟨r, hr, hrq⟩ := hs.filed q hold
      exact ⟨r, mem_append_left _ hr, hrq⟩
    · exact ⟨_, mem_append_right _ (mem_singleton_self _), hnext.symm⟩

/-- The new head has the content of the version and, since the properties were restored before it was appended, its
snapshot. -/
theorem Statements.head (hs : s.Sound) :
    ∃ history head, findHistoryByFileId s'.db file.id = some history ∧ history.currentRevisionId = some head.id ∧
      head ∈ s'.db.revisions.rows ∧ (∀ r ∈ s.db.revisions.rows, r.id ≠ head.id) ∧ head.historyId = history.id ∧
      head.blobId = v.blobId ∧ head.logicalSize = v.logicalSize ∧
      ∀ propertyNamespace propertyName xmlValue, ⟨head.id, propertyNamespace, propertyName, xmlValue⟩ ∈ s'.snapshots.rows ↔
        ⟨v.id, propertyNamespace, propertyName, xmlValue⟩ ∈ s.snapshots.rows := by
  have hfind : findHistoryByFileId s'.db file.id = some (withHead s.db.revisions.next (history.nextSequence + 1) history) := by
    obtain ⟨db, hhistories, hrevisions, hrows, -⟩ := h.headed
    have hlocked : findHistoryByFileId db file.id = some history := by
      unfold findHistoryByFileId
      rw [hhistories]
      exact h.locked
    have hafter : findHistoryByFileId (appended db history input) file.id = some _ := findHistory_appended hlocked
    unfold findHistoryByFileId at hafter ⊢
    rw [hrows, hafter, hrevisions]
  refine ⟨_, nextRevision history input s.db.revisions.next, hfind, rfl, ?_, fun r hr => ?_, rfl, ?_, h.same.2, ?_⟩
  · rw [h.revisions_rows]
    exact mem_append_right _ (mem_singleton_self _)
  · exact (s.db.revisions.below r hr).ne
  · show some input.blobId = v.blobId
    rw [h.same.1, h.present]
  · intro propertyNamespace propertyName xmlValue
    rw [h.mem_snapshots hs]
    constructor
    · rintro (hold | ⟨-, hsame⟩)
      · exact absurd rfl (hs.fresh hold)
      · exact hsame
    · exact fun hsame => .inr ⟨rfl, hsame⟩

theorem Statements.restored (hs : s.Sound) : Restored s s' scope file v where
  content := ⟨current, updated, k, h.row, h.rewritten, h.present, h.content⟩
  properties := h.properties
  otherProperties := h.otherProperties
  head := h.head hs
  older r hr := by
    refine ⟨?_, fun q hq => ?_⟩
    · rw [h.revisions_rows]
      exact mem_append_left _ hr
    · rw [h.mem_snapshots hs]
      have hlt := s.db.revisions.below r hr
      constructor
      · rintro (hold | ⟨hnext, -⟩)
        · exact hold
        · omega
      · exact Or.inl
  reference j b hj := by
    rw [h.reference j b hj, h.present]
    simp only [Option.some.injEq]
  usage := h.usage

end

/-- **The transaction restores the version.** -/
theorem restoreTransaction_ok (hs : s.Sound)
    (h : restoreTransaction orders scope file revisionId now etag s = .ok ((updated, changed), s')) :
    ∃ v ∈ s.db.revisions.rows, v.id = revisionId ∧ Restorable s scope file v ∧ Restored s s' scope file v ∧ s'.Sound ∧
      changed = decide (v.blobId ≠ some file.blobId) := by
  obtain ⟨current, history, v, k, input, hid, -, hchanged, hstatements⟩ := restoreTransaction_statements hs h
  refine ⟨v, hstatements.version, hid, hstatements.restorable, hstatements.restored hs, hstatements.sound hs, ?_⟩
  rw [hchanged, hstatements.present]
  simp only [ne_eq, Option.some.injEq]

/-! ### When the transaction succeeds -/

theorem charge_succeeds {db : Db} {n : ℕ} {u : StorageUsage} (hu : db.usage.get scope.resource = some u)
    (hroom : u.storageQuota = 0 ∨ u.storageUsed + (n : ℤ) ≤ u.storageQuota) :
    ∃ db', updateStorageUsedOn scope n db = .ok ((), db') := by
  have haccepts : acceptsDelta scope.resource (n : ℤ) u = true := by
    unfold acceptsDelta
    rw [decide_eq_true_eq]
    exact ⟨key_of_get hu, fun _ => hroom⟩
  have haffected : db.usage.affected (acceptsDelta scope.resource (n : ℤ)) ≠ 0 := by
    unfold affected
    have hpos := countP_pos_iff.mpr ⟨u, mem_of_get hu, haccepts⟩
    omega
  unfold updateStorageUsedOn updateStorageUsedFor updateStorageUsed
  rw [if_neg haffected]
  exact ⟨_, rfl⟩

theorem increment_succeeds {db : Db} {k : ℕ} {b : FileBlob} (hb : db.blobs.get k = some b) (hcount : 0 ≤ b.refCount) :
    ∃ db', incrementOn k db = .ok ((), db') := by
  have haffected : db.blobs.affected (fun b => b.id = k ∧ 0 ≤ b.refCount) ≠ 0 := by
    unfold affected
    have hmeets : decide (b.id = k ∧ 0 ≤ b.refCount) = true := decide_eq_true ⟨key_of_get hb, hcount⟩
    have hpos : 0 < db.blobs.rows.countP fun b => b.id = k ∧ 0 ≤ b.refCount :=
      countP_pos_iff.mpr ⟨b, mem_of_get hb, hmeets⟩
    omega
  unfold incrementOn onBlobs incrementBlobRefCount
  dsimp only
  rw [if_neg haffected]
  exact ⟨_, rfl⟩

theorem restoreUserProperties_succeeds
    (huser : ∀ q ∈ s.snapshots.rows, isProtectedNamespace q.propertyNamespace = false) :
    ∃ properties, restoreUserProperties orders fileId revisionId s = .ok ((), { s with properties }) := by
  have hfound : ∀ q ∈ findProperties orders s.snapshots revisionId, (q.restored fileId).isUserOf fileId = true := by
    intro q hq
    exact restored_isUserOf (huser q (mem_findProperties.mp hq).1)
  have hkeys : (((findProperties orders s.snapshots revisionId).map fun q => q.restored fileId).map
      EntityProperty.key).Nodup := by
    have hunique : ((findProperties orders s.snapshots revisionId).map FileRevisionProperty.key).Nodup := by
      refine (Perm.nodup_iff ((orders.snapshots.perm _).map _)).mpr ?_
      exact s.snapshots.unique.sublist (List.filter_sublist.map _)
    rw [map_map]
    refine Nodup.map_on (fun q hq q' hq' hkey => ?_) (Nodup.of_map _ hunique)
    have hrevision := (mem_findProperties.mp hq).2.trans (mem_findProperties.mp hq').2.symm
    simp only [Function.comp_apply, EntityProperty.key, restored, Prod.mk.injEq, true_and] at hkey
    refine inj_on_of_nodup_map hunique hq hq' ?_
    unfold FileRevisionProperty.key
    rw [hrevision, hkey.1, hkey.2]
  have hall : (((s.properties.deleteWhere fun p => p.isUserOf fileId).rows ++
      (findProperties orders s.snapshots revisionId).map fun q => q.restored fileId).map EntityProperty.key).Nodup := by
    rw [map_append]
    refine nodup_append.mpr ⟨unique _, hkeys, ?_⟩
    rintro _ hkept _ hnew rfl
    obtain ⟨p, hp, hkey⟩ := mem_map.mp hkept
    obtain ⟨_, hrestored, hsame⟩ := mem_map.mp hnew
    obtain ⟨q, hq, rfl⟩ := mem_map.mp hrestored
    have hother := (mem_deleteWhere.mp hp).2
    have hof := EntityProperty.isUserOf_iff.mp (hfound q hq)
    have heq := hsame.trans hkey.symm
    simp only [EntityProperty.key, Prod.mk.injEq] at heq
    have huserOf : p.isUserOf fileId = true :=
      EntityProperty.isUserOf_iff.mpr ⟨heq.1.symm.trans hof.1, heq.2.1.symm.trans hof.2.1, heq.2.2.1 ▸ hof.2.2⟩
    rw [hother] at huserOf
    cases huserOf
  obtain ⟨properties, hinsert⟩ := insertAll_succeeds hall
  refine ⟨properties, ?_⟩
  unfold restoreUserProperties
  simp only [hinsert]

theorem snapshotUserProperties_succeeds (hrevision : ∃ r, s.db.revisions.get revisionId = some r)
    (hfresh : ∀ q ∈ s.snapshots.rows, q.revisionId ≠ revisionId) :
    ∃ snapshots, snapshotUserProperties orders fileId revisionId s = .ok ((), { s with snapshots }) := by
  obtain ⟨r, hr⟩ := hrevision
  have hinsert : ∃ snapshots, s.snapshots.insertAll
      ((findUserProperties orders.properties s.properties [fileId]).map fun p => p.snapshot revisionId) = some snapshots :=
    insertAll_snapshots
      (fun a ha b hb _ => (mem_singleton.mp ha).trans (mem_singleton.mp hb).symm) fun q hq _ _ => hfresh q hq
  obtain ⟨snapshots, hinsert⟩ := hinsert
  unfold snapshotUserProperties
  dsimp only
  split_ifs with hempty
  · exact ⟨s.snapshots, rfl⟩
  · refine ⟨snapshots, ?_⟩
    rw [hr]
    unfold insertSnapshots
    simp only [hinsert]

theorem append_succeeds (hs : s.Sound) (hhistory : findHistoryByFileId s.db fileId = some history)
    (hroom : history.nextSequence < Db.i64Max)
    (hnew : ∀ r ∈ s.db.revisions.rows, ¬ (r.historyId = history.id ∧ r.sequence = history.nextSequence)) :
    ∃ r s', append orders fileId history.currentRevisionId input s = .ok (r, s') := by
  have hlock : lockHistoryByFileId fileId s.db = .ok (history, s.db) :=
    bind_txn_ok.mpr ⟨_, _, rfl, orFail_ok.mpr ⟨hhistory, rfl⟩⟩
  have hinsert : insertRevision history.id history.nextSequence history.currentRevisionId input s.db =
      .ok (nextRevision history input s.db.revisions.next,
        { s.db with revisions := s.db.revisions.insert (nextRevision history input) fun _ => rfl }) := by
    have hany : (s.db.revisions.rows.any fun r => r.historyId = history.id ∧ r.sequence = history.nextSequence) = false :=
      any_eq_false.mpr fun r hr h => hnew r hr (of_decide_eq_true h)
    unfold insertRevision
    rw [hany]
    rfl
  have hgot : (s.db.revisions.insert (nextRevision history input) fun _ => rfl).get s.db.revisions.next =
      some (nextRevision history input s.db.revisions.next) :=
    (SerialTable.get_insert s.db.revisions (fun _ => rfl) s.db.revisions.next).trans (if_pos rfl)
  let inserted : PropertyDb :=
    { s with db := { s.db with revisions := s.db.revisions.insert (nextRevision history input) fun _ => rfl } }
  have htaken : ∃ snapshots, snapshotUserProperties orders fileId s.db.revisions.next inserted =
      .ok ((), { inserted with snapshots }) :=
    snapshotUserProperties_succeeds ⟨_, hgot⟩ fun q hq => hs.fresh hq
  obtain ⟨snapshots, hsnapshot⟩ := htaken
  refine ⟨_, _, bind_onDb_ok.mpr ⟨_, _, hlock, bind_onDb_ok.mpr ⟨(), _, ensure_ok.mpr ⟨.inr rfl, rfl⟩, bind_onDb_ok.mpr
    ⟨_, _, hinsert, bind_state_ok.mpr ⟨(), _, hsnapshot, bind_onDb_ok.mpr ⟨(), _, ensure_ok.mpr ⟨hroom, rfl⟩,
    bind_onDb_ok.mpr ⟨(), _, rfl, pure_state_ok.mpr ⟨rfl, rfl⟩⟩⟩⟩⟩⟩⟩⟩

theorem Restorable.succeeds {v : FileRevision} (hs : s.Sound) (hv : v ∈ s.db.revisions.rows) (hid : v.id = revisionId)
    (h : Restorable s scope file v) : ∃ x s', restoreTransaction orders scope file revisionId now etag s = .ok (x, s') := by
  obtain ⟨current, hrow, hworkspace, hsame⟩ := h.current
  obtain ⟨history, hhistory, hof, hroom, hnew⟩ := h.history
  obtain ⟨k, b, hk, hb, hcount⟩ := h.blob
  obtain ⟨u, hu, hquota⟩ := h.room
  have henforce : enforceFileMutation file s.db = .ok (current, s.db) :=
    bind_txn_ok.mpr ⟨_, _, rfl, bind_txn_ok.mpr ⟨_, _, orFail_ok.mpr ⟨hrow, rfl⟩, bind_txn_ok.mpr
      ⟨(), _, ensure_ok.mpr ⟨hworkspace, rfl⟩, rfl⟩⟩⟩
  have hlock : lockHistoryByFileId file.id s.db = .ok (history, s.db) :=
    bind_txn_ok.mpr ⟨_, _, rfl, orFail_ok.mpr ⟨hhistory, rfl⟩⟩
  have hload : loadRevisionForFile file.id revisionId s.db = .ok (v, s.db) := by
    have hget : s.db.revisions.get revisionId = some v := hid ▸ get_of_mem hv
    have hlive : (s.db.revisions.get revisionId).filter (fun r => r.historyId = history.id ∧ r.retired = false) = some v := by
      rw [hget, Option.filter_some, if_pos (decide_eq_true ⟨hof, h.live⟩)]
    exact bind_txn_ok.mpr ⟨_, _, bind_txn_ok.mpr ⟨_, _, hlock, rfl⟩, orFail_ok.mpr ⟨hlive, rfl⟩⟩
  obtain ⟨db1, hcharge⟩ := charge_succeeds hu hquota
  obtain ⟨⟨usage, floorsTaken, rfl⟩, -⟩ := charge_ok hcharge
  obtain ⟨db2, hincrement⟩ : ∃ db, incrementOn k { s.db with usage, floorsTaken } = .ok ((), db) :=
    increment_succeeds hb hcount
  obtain ⟨⟨blobs, rfl⟩, -⟩ := increment_ok hincrement
  let counted : PropertyDb := { s with db := { s.db with usage, floorsTaken, blobs } }
  have hproperties : ∃ properties, restoreUserProperties orders file.id v.id counted = .ok ((), { counted with properties }) :=
    restoreUserProperties_succeeds hs.user
  obtain ⟨properties, hrestore⟩ := hproperties
  let input : NewRevision :=
    { blobId := k, logicalSize := v.logicalSize, mimeType := v.mimeType.getD current.mimeType, etag }
  have happended : ∃ r s', append orders file.id history.currentRevisionId input { counted with properties } = .ok (r, s') :=
    append_succeeds ⟨hs.user, hs.filed⟩ hhistory hroom hnew
  obtain ⟨r, s', happend⟩ := happended
  refine ⟨_, _, bind_onDb_ok.mpr ⟨_, _, henforce, bind_onDb_ok.mpr ⟨(), _, ensure_ok.mpr ⟨hsame, rfl⟩, bind_onDb_ok.mpr
    ⟨_, _, hlock, bind_onDb_ok.mpr ⟨_, _, hload, bind_onDb_ok.mpr ⟨_, _, orFail_ok.mpr ⟨hk, rfl⟩, bind_onDb_ok.mpr
    ⟨(), _, hcharge, bind_onDb_ok.mpr ⟨(), _, hincrement, bind_state_ok.mpr ⟨(), _, hrestore, bind_state_ok.mpr
    ⟨_, _, happend, bind_onDb_ok.mpr ⟨_, _, rfl, pure_state_ok.mpr ⟨rfl, rfl⟩⟩⟩⟩⟩⟩⟩⟩⟩⟩⟩⟩

/-! ### The call -/

theorem Restored.state_ne {v : FileRevision} (h : Restored s s' scope file v) : s' ≠ s := by
  rintro rfl
  obtain ⟨-, head, -, -, hmem, hfresh, -⟩ := h.head
  exact hfresh head hmem rfl

variable {v : FileRevision} {commit : Except AsterError Unit} {previousBlob : Except AsterError FileBlob}

theorem restoreTransaction_of (hs : s.Sound) (hv : v ∈ s.db.revisions.rows) (hid : v.id = revisionId)
    (h : restoreTransaction orders scope file revisionId now etag s = .ok ((updated, changed), s')) :
    Restorable s scope file v ∧ Restored s s' scope file v ∧ changed = decide (v.blobId ≠ some file.blobId) := by
  obtain ⟨w, hw, hwid, hrestorable, hrestored, -, hchanged⟩ := restoreTransaction_ok hs h
  have hsame : w = v := inj_on_of_nodup_map s.db.revisions.unique hw hv (hwid.trans hid.symm)
  rw [hsame] at hrestorable hrestored hchanged
  exact ⟨hrestorable, hrestored, hchanged⟩

/-- **Restoring a version.** A committed restore reproduces the version. A call that reports an error changed nothing,
unless it fails to look up the previous blob after the commit. -/
theorem version_restore (hs : s.Sound) (hv : v ∈ s.db.revisions.rows) (hid : v.id = revisionId) :
    let outcome := restoreVersionInner orders scope file revisionId now etag commit previousBlob s
    ((∀ x s', restoreTransaction orders scope file revisionId now etag s = .ok (x, s') → commit = .ok () →
        outcome.2 = s' ∧ Restored s outcome.2 scope file v) ∧
      ∀ e, outcome.1 = .error e → outcome.2 = s) ↔
    (Restorable s scope file v → commit = .ok () → v.blobId = some file.blobId ∨ ∃ b, previousBlob = .ok b) := by
  intro outcome
  constructor
  · rintro ⟨-, hfailed⟩ hrestorable hcommit
    have hsucceeds : ∃ x s', restoreTransaction orders scope file revisionId now etag s = .ok (x, s') :=
      hrestorable.succeeds hs hv hid
    obtain ⟨⟨updated, changed⟩, s', hok⟩ := hsucceeds
    obtain ⟨-, hrestored, hchanged⟩ := restoreTransaction_of hs hv hid hok
    by_contra hnot
    have hother : v.blobId ≠ some file.blobId := fun h => hnot (.inl h)
    have hlost : ∃ e, previousBlob = .error e := by
      cases hprevious : previousBlob with
      | error e => exact ⟨e, rfl⟩
      | ok b => exact absurd (.inr ⟨b, hprevious⟩) hnot
    obtain ⟨e, rfl⟩ := hlost
    have houtcome : outcome = (.error e, s') := by
      show restoreVersionInner orders scope file revisionId now etag commit (.error e) s = _
      unfold restoreVersionInner
      rw [hok, hcommit, hchanged, decide_eq_true hother]
      rfl
    have hkept := hfailed e (by rw [houtcome])
    rw [houtcome] at hkept
    exact hrestored.state_ne hkept
  · intro hcondition
    cases hok : restoreTransaction orders scope file revisionId now etag s with
    | error e =>
      have houtcome : outcome = (.error e, s) := by
        show restoreVersionInner orders scope file revisionId now etag commit previousBlob s = _
        unfold restoreVersionInner
        rw [hok]
      rw [houtcome]
      exact ⟨(fun x s' h => nomatch h), fun _ _ => rfl⟩
    | ok result =>
      obtain ⟨⟨updated, changed⟩, s'⟩ := result
      obtain ⟨hrestorable, hrestored, hchanged⟩ := restoreTransaction_of hs hv hid hok
      cases hcommit : commit with
      | error e =>
        have houtcome : outcome = (.error e, s) := by
          show restoreVersionInner orders scope file revisionId now etag commit previousBlob s = _
          unfold restoreVersionInner
          rw [hok, hcommit]
        rw [houtcome]
        exact ⟨(fun x s' _ h => nomatch h), fun _ _ => rfl⟩
      | ok done =>
        have houtcome : outcome = (.ok updated, s') := by
          show restoreVersionInner orders scope file revisionId now etag commit previousBlob s = _
          unfold restoreVersionInner
          rw [hok, hcommit, hchanged]
          obtain hsame | ⟨b, hb⟩ := hcondition hrestorable hcommit
          · rw [hsame]
            simp
          · rw [hb]
            simp
        rw [houtcome]
        refine ⟨fun x t h _ => ?_, (fun e h => nomatch h)⟩
        cases h
        exact ⟨rfl, hrestored⟩

end

/-! ### A file with two versions -/

def notes : File := ⟨1, some 7, none, none, "notes.txt", 2, 5, "text/plain", 20, none⟩

def draft : FileRevision := ⟨1, 1, 1, none, some 1, 3, some "text/markdown", "a", false⟩

def finished : FileRevision := ⟨2, 1, 2, some 1, some 2, 5, some "text/plain", "b", false⟩

/-- The draft was red, the finished version is blue. -/
def notesHistory : FileRevisionHistory := ⟨1, some 1, some 2, 3, false, false⟩

def twoVersions : PropertyDb where
  db :=
    { blobs := ⟨⟨[⟨1, "d1", 1, .stored, some "ca/d1", 3, 1⟩, ⟨2, "d2", 1, .stored, some "ca/d2", 5, 1⟩], by decide⟩, 3, by decide⟩
      files := ⟨⟨[notes], by decide⟩, 2, by decide⟩
      histories := ⟨⟨[notesHistory], by decide⟩, 2, by decide⟩
      revisions := ⟨⟨[draft, finished], by decide⟩, 3, by decide⟩
      usage := ⟨[⟨.personal 7, 8, 0, false⟩], by decide⟩ }
  properties := ⟨[⟨.file, 1, "urn:notes", "colour", some "blue"⟩], by decide⟩
  snapshots := ⟨[⟨1, "urn:notes", "colour", some "red"⟩, ⟨2, "urn:notes", "colour", some "blue"⟩], by decide⟩

theorem twoVersions_sound : twoVersions.Sound := ⟨by decide, by decide⟩

def restoreDraft (previousBlob : Except AsterError FileBlob) : Except AsterError File × PropertyDb :=
  restoreVersionInner {} (.personal 7) notes 1 30 "c" (.ok ()) previousBlob twoVersions

theorem draft_restorable : Restorable twoVersions (.personal 7) notes draft where
  current := ⟨notes, rfl, rfl, rfl⟩
  history := ⟨_, rfl, rfl, by decide, by decide⟩
  live := rfl
  blob := ⟨1, _, rfl, rfl, by decide⟩
  room := ⟨_, rfl, .inl rfl⟩

def finishedBlob : FileBlob := ⟨2, "d2", 1, .stored, some "ca/d2", 5, 1⟩

theorem version_restore_draft : ∃ x s', restoreTransaction {} (.personal 7) notes 1 30 "c" twoVersions = .ok (x, s') ∧
    (restoreDraft (.ok finishedBlob)).2 = s' ∧ Restored twoVersions s' (.personal 7) notes draft := by
  have hsucceeds : ∃ x s', restoreTransaction {} (.personal 7) notes 1 30 "c" twoVersions = .ok (x, s') :=
    draft_restorable.succeeds twoVersions_sound (by decide) rfl
  obtain ⟨x, s', hok⟩ := hsucceeds
  have hdraft : draft ∈ twoVersions.db.revisions.rows := by decide
  obtain ⟨hcommitted, -⟩ := (version_restore twoVersions_sound hdraft rfl).mpr fun _ _ => .inr ⟨finishedBlob, rfl⟩
  obtain ⟨hstate, hrestored⟩ := hcommitted x s' hok rfl
  rw [hstate] at hrestored
  exact ⟨x, s', hok, hstate, hrestored⟩

/-- The draft is restored, but the blob of the finished version cannot be read afterwards. -/
theorem version_restore_lost : ¬ ∀ e, (restoreDraft (.error (Db.databaseError "connection closed"))).1 = .error e →
    (restoreDraft (.error (Db.databaseError "connection closed"))).2 = twoVersions := by
  intro hkept
  have hfailed : (restoreDraft (.error (Db.databaseError "connection closed"))).1 =
      .error (Db.databaseError "connection closed") := by rfl
  have hrows := congrArg (fun s => s.db.revisions.rows.length) (hkept _ hfailed)
  have hthree : (restoreDraft (.error (Db.databaseError "connection closed"))).2.db.revisions.rows.length = 3 := by rfl
  cases hrows

end AsterDrive.Workspace.VersionRestore
