import AsterDrive.Locks.Lifecycle

/-!
# Enforcement — the lock evaluator of the product, and the mutations behind it

`services/files/lock/enforcement.rs` decides by identity whether a mutation may go on: a lock counts
against a target if it is rooted there, or if it is deep and rooted at a folder above it or at the
workspace root. A lock that has not expired has to be satisfied by the credentials of the request.

The transactions of the product that move, rename and delete are written down here with the evaluator
in them. They submit no credentials. The unique indexes on names, and the task table that announces a
purge of the trash, can refuse a transaction; what they say is an argument.
-/

namespace AsterDrive.Locks

open Db Files

/-- `SubmittedLockCredentials`. -/
structure SubmittedLockCredentials where
  holderUserId : Option ℕ
  tokens : List String

/-- `SubmittedLockCredentials::none`. -/
def SubmittedLockCredentials.none : SubmittedLockCredentials := { holderUserId := Option.none, tokens := [] }

/-- `lock_covers_target`; the depth of the target is not looked at. -/
def lockCoversTarget (l : ResourceLock) (target : LockTarget) (ancestorIds : List ℕ) : Bool :=
  match l.root with
  | .workspaceRoot => decide (target.root = .workspaceRoot) || decide (l.depth = .infinity)
  | .file fileId => decide (target.root = .file fileId)
  | .folder folderId =>
    decide (target.root = .folder folderId) ||
      decide (l.depth = .infinity) && decide (folderId ∈ ancestorIds)

/-- `lock_is_satisfied`. -/
def lockIsSatisfied (l : ResourceLock) (credentials : SubmittedLockCredentials) : Bool :=
  decide (l.token ∈ credentials.tokens) ||
    decide (l.origin = .product) && credentials.holderUserId.any fun userId => l.holderUserId = some userId

/-- `load_ancestor_ids`. -/
def loadAncestorIds (t : Folders) (w : WorkspaceResourceScope) : Option ℕ → List ℕ
  | none => []
  | some parentId => (findAncestorModels t w parentId).map Folder.id

/-- `enforce_mutation_locks_in_namespace_on`. -/
def enforceMutationLocksInNamespaceOn (db : LockDb) (namespaceId : ℕ) (target : LockTarget)
    (parentFolderId : Option ℕ) (credentials : SubmittedLockCredentials) (now : ℕ) : Except AsterError Unit :=
  let ancestorIds := loadAncestorIds db.tree.folders target.workspace parentFolderId
  if (db.findAllByNamespace namespaceId).any fun l =>
      !l.expired now && lockCoversTarget l target ancestorIds && !lockIsSatisfied l credentials then
    .error (resourceLocked "resource is locked")
  else .ok ()

/-- `enforce_file_mutation_on`. -/
def enforceFileMutationOn (db : LockDb) (file : File) (credentials : SubmittedLockCredentials) (now : ℕ) :
    Except AsterError (File × LockDb) := do
  let workspace ← workspaceOfFile file
  let (ns, db) := lockWorkspaceForMutationOn db workspace
  let current ← findFileById db.tree.files file.id
  let currentWorkspace ← workspaceOfFile current
  requireWorkspace currentWorkspace workspace "file workspace changed during mutation lock validation"
  enforceMutationLocksInNamespaceOn db ns.id { workspace, root := .file file.id, depth := .resource }
    current.folderId credentials now
  pure (current, db)

/-- `enforce_folder_mutation_on`. -/
def enforceFolderMutationOn (db : LockDb) (folder : Folder) (depth : LockDepth)
    (credentials : SubmittedLockCredentials) (now : ℕ) : Except AsterError (Folder × LockDb) := do
  let workspace ← workspaceOfFolder folder
  let (ns, db) := lockWorkspaceForMutationOn db workspace
  let current ← lockFolderById db.tree.folders folder.id
  let currentWorkspace ← workspaceOfFolder current
  requireWorkspace currentWorkspace workspace "folder workspace changed during mutation lock validation"
  enforceMutationLocksInNamespaceOn db ns.id { workspace, root := .folder folder.id, depth }
    current.parentId credentials now
  pure (current, db)

/-- The collection itself, and the folder above it. -/
def membershipTarget (db : LockDb) (workspace : WorkspaceResourceScope) :
    Option ℕ → Except AsterError (LockRoot × Option ℕ)
  | some folderId => do
    let parent ← lockFolderById db.tree.folders folderId
    let parentWorkspace ← workspaceOfFolder parent
    requireWorkspace parentWorkspace workspace "parent folder workspace changed during membership mutation"
    pure (.folder folderId, parent.parentId)
  | none => do
    findWorkspaceOwner db workspace
    pure (.workspaceRoot, none)

/-- `enforce_collection_membership_mutation_on`. -/
def enforceCollectionMembershipMutationOn (db : LockDb) (workspace : WorkspaceResourceScope)
    (parentFolderId : Option ℕ) (credentials : SubmittedLockCredentials) (now : ℕ) :
    Except AsterError LockDb := do
  let (ns, db) := lockWorkspaceForMutationOn db workspace
  let (root, ancestorParentId) ← membershipTarget db workspace parentFolderId
  enforceMutationLocksInNamespaceOn db ns.id { workspace, root, depth := .resource } ancestorParentId credentials now
  pure db

/-! ### Moves and renames -/

section Mutations

variable (normalizeName : String → String)
-- the unique indexes on names, on the tables as they would be
variable (indexRefuses : Tree → Bool)

/-- The write at the end of a transaction; an index may refuse it. -/
def writeTree (db : LockDb) (t : Tree) (refusal : AsterError) : Except AsterError LockDb :=
  if indexRefuses t then .error refusal else .ok { db with tree := t }

/-- The membership checks of a move: out of one collection and into another. -/
def enforceMembershipsOfMove (db : LockDb) (workspace : WorkspaceResourceScope)
    (fromParent toParent : Option ℕ) (now : ℕ) : Except AsterError LockDb :=
  if toParent ≠ fromParent then do
    let db ← enforceCollectionMembershipMutationOn db workspace fromParent .none now
    enforceCollectionMembershipMutationOn db workspace toParent .none now
  else .ok db

/-- The row of a folder after a rename or a move. -/
def patchFolder (name : Option String) (parentId : NullablePatch ℕ) (f : Folder) : Folder :=
  { f with name := name.getD f.name, parentId := parentId.apply f.parentId }

/-- The folder is no part of the chain it is to hang under, and its name is free there. -/
def checkFolderPlace (t : Tree) (scope : WorkspaceStorageScope) (id : ℕ) (targetChain : List Folder)
    (targetParent : Option ℕ) (finalName : String) : Except AsterError Unit :=
  if id ∈ targetChain.map Folder.id then
    .error (validationError "cannot move folder into its own subfolder")
  else if (findFolderByNameInScope normalizeName t.folders scope.resource targetParent finalName).any
      fun existing => existing.id ≠ id then
    .error (duplicateFolderNameError finalName)
  else .ok ()

/-- `folder::update_in_scope`; `name` is the validated name. -/
def updateFolderInScope (db : LockDb) (scope : WorkspaceStorageScope) (id : ℕ) (name : Option String)
    (parentId : NullablePatch ℕ) (now : ℕ) : Except AsterError LockDb :=
  if parentId = .value id then .error (validationError "cannot move folder into itself")
  else do
    let preview ← findFolderById db.tree.folders id
    ensureActiveFolderScope preview scope
    let (current, db) ← enforceFolderMutationOn db preview .infinity .none now
    ensureActiveFolderScope current scope
    let targetParent := parentId.apply current.parentId
    let targetChain ← loadFolderChainInScope db.tree.folders scope targetParent
    let workspace ← workspaceOfFolder current
    let db ← enforceMembershipsOfMove db workspace current.parentId targetParent now
    let finalName := name.getD current.name
    checkFolderPlace normalizeName db.tree scope id targetChain targetParent finalName
    if finalName = current.name ∧ targetParent = current.parentId then pure db
    else
      writeTree indexRefuses db { db.tree with
          folders := db.tree.folders.updateRows (fun f => f.id = id) (patchFolder name parentId) fun _ => rfl }
        (duplicateFolderNameError finalName)

/-- The row of a file after a rename or a move. -/
def patchFile (name : Option String) (folderId : NullablePatch ℕ) (now : ℕ) (f : File) : File :=
  { f with name := name.getD f.name, folderId := folderId.apply f.folderId, updatedAt := now }

/-- `lock_folder_access_on`, for a target that is a folder. -/
def lockFolderAccessOn (t : Folders) (scope : WorkspaceStorageScope) : Option ℕ → Except AsterError Unit
  | none => .ok ()
  | some folderId => do
    let folder ← lockFolderById t folderId
    ensureActiveFolderScope folder scope

/-- The checks of a file that leaves its folder. -/
def enforceFileMove (db : LockDb) (scope : WorkspaceStorageScope) (f : File) (targetFolder : Option ℕ)
    (now : ℕ) : Except AsterError LockDb :=
  if targetFolder ≠ f.folderId then do
    lockFolderAccessOn db.tree.folders scope targetFolder
    let workspace ← workspaceOfFile f
    enforceMembershipsOfMove db workspace f.folderId targetFolder now
  else .ok db

/-- `file::update_in_scope`; `snapshot` was read and checked before the transaction. -/
def updateFileInScope (db : LockDb) (scope : WorkspaceStorageScope) (snapshot : File) (name : Option String)
    (folderId : NullablePatch ℕ) (now : ℕ) : Except AsterError LockDb := do
  ensureActiveFileScope snapshot scope
  let (f, db) ← enforceFileMutationOn db snapshot .none now
  let targetFolder := folderId.apply f.folderId
  let db ← enforceFileMove db scope f targetFolder now
  let finalName := name.getD f.name
  if (findFileByNameInScope normalizeName db.tree.files scope.resource targetFolder finalName).any
      fun existing => existing.id ≠ snapshot.id then
    .error (duplicateNameError finalName)
  else if finalName = f.name ∧ targetFolder = f.folderId then pure db
  else
    writeTree indexRefuses db { db.tree with
        files := db.tree.files.updateRows (fun x => x.id = snapshot.id) (patchFile name folderId now) fun _ => rfl }
      (duplicateNameError finalName)

/-- `revalidate_batch_folder_move`, for one folder. -/
def revalidateBatchFolder (scope : WorkspaceStorageScope) (targetChain : List Folder) (now : ℕ)
    (db : LockDb) (folderId : ℕ) : Except AsterError LockDb := do
  let folder ← lockFolderById db.tree.folders folderId
  ensureActiveFolderScope folder scope
  let (_, db) ← enforceFolderMutationOn db folder .infinity .none now
  if folderId ∈ targetChain.map Folder.id then
    .error (validationError "cannot move folder into its own subfolder")
  else pure db

/-- `revalidate_batch_folder_move`. -/
def revalidateBatchFolderMove (db : LockDb) (scope : WorkspaceStorageScope) (folderIds : List ℕ)
    (target : Option ℕ) (now : ℕ) : Except AsterError LockDb :=
  match folderIds with
  | [] => .ok db
  | _ :: _ => do
    let targetChain ← loadFolderChainInScope db.tree.folders scope target
    folderIds.foldlM (revalidateBatchFolder scope targetChain now) db

/-- A file of the batch is enforced and checked again. -/
def revalidateBatchFile (scope : WorkspaceStorageScope) (now : ℕ) (db : LockDb) (snapshot : File) :
    Except AsterError LockDb := do
  let (current, db) ← enforceFileMutationOn db snapshot .none now
  ensureActiveFileScope current scope
  pure db

theorem moved_id (target : Option ℕ) (f : Folder) : { f with parentId := target : Folder }.id = f.id := rfl

/-- `move_many_to_folder` and `move_many_to_parent`. -/
def moveMany (fileIds folderIds : List ℕ) (target : Option ℕ) (now : ℕ) (t : Tree) : Tree where
  files := t.files.updateRows (fun f => f.id ∈ fileIds)
    (fun f => { f with folderId := target, updatedAt := now }) fun _ => rfl
  folders := t.folders.updateRows (fun f => f.id ∈ folderIds) (fun f => { f with parentId := target }) (moved_id target)

/-- The transaction of `batch_move_in_scope`; `files` and `folders` are what the phase before it picked,
as it saw them. -/
def batchMoveInScope (db : LockDb) (scope : WorkspaceStorageScope) (files : List File) (folders : List Folder)
    (target : Option ℕ) (now : ℕ) : Except AsterError LockDb := do
  lockFolderAccessOn db.tree.folders scope target
  let parents := (target :: (files.map File.folderId ++ folders.map Folder.parentId)).dedup
  let db ← parents.foldlM
    (fun db parentId => enforceCollectionMembershipMutationOn db scope.resource parentId .none now) db
  let db ← files.foldlM (revalidateBatchFile scope now) db
  let db ← revalidateBatchFolderMove db scope (folders.map Folder.id) target now
  writeTree indexRefuses db (moveMany (files.map File.id) (folders.map Folder.id) target now db.tree)
    (validationError "one or more folders already exist in target folder")

end Mutations

/-! ### What the evaluator lets through -/

/-- No lock row changed, and nothing but the namespace row of a workspace may be new. -/
structure Unmoved (db db' : LockDb) : Prop where
  frame : Frame db db'
  locks : db'.locks = db.locks
  namespaces : ∀ n r, db.namespaces.get n = some r → db'.namespaces.get n = some r

theorem Unmoved.refl (db : LockDb) : Unmoved db db := ⟨⟨rfl, rfl, rfl, fun _ _ h => h⟩, rfl, fun _ _ h => h⟩

theorem Unmoved.trans {db db' db'' : LockDb} (h : Unmoved db db') (h' : Unmoved db' db'') : Unmoved db db'' where
  frame := h.frame.trans h'.frame
  locks := h'.locks.trans h.locks
  namespaces n r hr := h'.namespaces n r (h.namespaces n r hr)

/-- Every lock of the workspace that has not expired and counts against the target is satisfied. -/
def Permits (db : LockDb) (target : LockTarget) (parentId : Option ℕ)
    (credentials : SubmittedLockCredentials) (now : ℕ) : Prop :=
  ∀ l ∈ db.locks.rows, db.workspaceOf l.namespaceId = some target.workspace → l.expired now = false →
    lockCoversTarget l target (loadAncestorIds db.tree.folders target.workspace parentId) →
    lockIsSatisfied l credentials

@[simp] theorem lockIsSatisfied_none (l : ResourceLock) : lockIsSatisfied l .none = false := by
  simp [lockIsSatisfied, SubmittedLockCredentials.none]

section

variable {db db' : LockDb} {w : WorkspaceResourceScope} {ns : ResourceLockNamespace} {target : LockTarget}
variable {parentId : Option ℕ} {credentials : SubmittedLockCredentials} {now : ℕ}

theorem Permits.congr (hu : Unmoved db db') (h : Permits db' target parentId credentials now) :
    Permits db target parentId credentials now := by
  intro l hl hw hlive hcover
  rw [← hu.locks] at hl
  rw [← hu.frame.tree] at hcover
  exact h l hl (hu.frame.workspaces _ _ hw) hlive hcover

theorem Permits.mono (hu : Unmoved db db') (h : Permits db target parentId credentials now) :
    Permits db' target parentId credentials now := by
  intro l hl hw hlive hcover
  rw [hu.locks] at hl
  rw [hu.frame.tree] at hcover
  obtain ⟨ns, hns⟩ := db.owned l hl
  have hold : db.workspaceOf l.namespaceId = some ns.workspace := by simp [LockTables.workspaceOf, hns]
  have hsame : ns.workspace = target.workspace := Option.some.inj ((hu.frame.workspaces _ _ hold).symm.trans hw)
  exact h l hl (hsame ▸ hold) hlive hcover

theorem lockWorkspaceForMutationOn_unmoved (h : lockWorkspaceForMutationOn db w = (ns, db')) :
    Unmoved db db' ∧ db'.namespaces.get ns.id = some ns ∧ ns.workspace = w := by
  obtain ⟨hget, hw, hlocks, hframe, -, hrows⟩ := lockWorkspaceForMutationOn_eq h
  exact ⟨⟨hframe, hlocks, hrows⟩, hget, hw⟩

theorem enforceMutationLocks_ok (hns : db.namespaces.get ns.id = some ns) (hw : ns.workspace = target.workspace)
    (h : enforceMutationLocksInNamespaceOn db ns.id target parentId credentials now = .ok ()) :
    Permits db target parentId credentials now := by
  simp only [enforceMutationLocksInNamespaceOn] at h
  split_ifs at h with hany
  intro l hl hlw hlive hcover
  rw [← hw] at hlw
  have hln : l.namespaceId = ns.id := namespace_eq_of_workspaceOf hns hlw
  have hmem := LockTables.mem_findAllByNamespace.mpr ⟨hl, hln⟩
  by_contra hsat
  refine hany (List.any_eq_true.mpr ⟨l, hmem, ?_⟩)
  simpa [hlive, hcover] using hsat

theorem enforceFolderMutationOn_ok {folder current : Folder} {depth : LockDepth}
    (h : enforceFolderMutationOn db folder depth credentials now = .ok (current, db')) :
    Unmoved db db' ∧ db.tree.folders.get folder.id = some current ∧
      ∃ w, folder.workspace = some w ∧ current.workspace = some w ∧
        Permits db { workspace := w, root := .folder folder.id, depth } current.parentId credentials now := by
  obtain ⟨w, hw, h⟩ := bind_ok h
  rcases hns : lockWorkspaceForMutationOn db w with ⟨ns, db1⟩
  rw [hns] at h
  obtain ⟨current0, hcur, h⟩ := bind_ok h
  obtain ⟨w', hw', h⟩ := bind_ok h
  obtain ⟨⟨⟩, hsame, h⟩ := bind_ok h
  obtain ⟨⟨⟩, hperm, h⟩ := bind_ok h
  cases h
  obtain ⟨hu, hget, hnsw⟩ := lockWorkspaceForMutationOn_unmoved hns
  obtain rfl := requireWorkspace_ok.mp hsame
  have hrow := lockFolderById_ok.mp hcur
  rw [hu.frame.tree] at hrow
  exact ⟨hu, hrow, w', workspaceOfFolder_ok.mp hw, workspaceOfFolder_ok.mp hw',
    (enforceMutationLocks_ok hget hnsw hperm).congr hu⟩

theorem enforceFileMutationOn_ok {file current : File}
    (h : enforceFileMutationOn db file credentials now = .ok (current, db')) :
    Unmoved db db' ∧ db.tree.files.get file.id = some current ∧
      ∃ w, file.workspace = some w ∧ current.workspace = some w ∧
        Permits db { workspace := w, root := .file file.id, depth := .resource } current.folderId
          credentials now := by
  obtain ⟨w, hw, h⟩ := bind_ok h
  rcases hns : lockWorkspaceForMutationOn db w with ⟨ns, db1⟩
  rw [hns] at h
  obtain ⟨current0, hcur, h⟩ := bind_ok h
  obtain ⟨w', hw', h⟩ := bind_ok h
  obtain ⟨⟨⟩, hsame, h⟩ := bind_ok h
  obtain ⟨⟨⟩, hperm, h⟩ := bind_ok h
  cases h
  obtain ⟨hu, hget, hnsw⟩ := lockWorkspaceForMutationOn_unmoved hns
  obtain rfl := requireWorkspace_ok.mp hsame
  have hrow := findFileById_ok.mp hcur
  rw [hu.frame.tree] at hrow
  exact ⟨hu, hrow, w', workspaceOfFile_ok.mp hw, workspaceOfFile_ok.mp hw',
    (enforceMutationLocks_ok hget hnsw hperm).congr hu⟩

theorem membershipTarget_ok {root : LockRoot} {above : Option ℕ}
    (h : membershipTarget db w parentId = .ok (root, above)) :
    (parentId = none ∧ root = .workspaceRoot ∧ above = none) ∨
      ∃ k g, parentId = some k ∧ root = .folder k ∧ db.tree.folders.get k = some g ∧
        g.workspace = some w ∧ above = g.parentId := by
  cases parentId with
  | none =>
    obtain ⟨⟨⟩, -, h⟩ := bind_ok h
    cases h
    exact .inl ⟨rfl, rfl, rfl⟩
  | some k =>
    obtain ⟨g, hg, h⟩ := bind_ok h
    obtain ⟨v, hv, h⟩ := bind_ok h
    obtain ⟨⟨⟩, hsame, h⟩ := bind_ok h
    cases h
    obtain rfl := requireWorkspace_ok.mp hsame
    exact .inr ⟨k, g, rfl, rfl, lockFolderById_ok.mp hg, workspaceOfFolder_ok.mp hv, rfl⟩

theorem membershipTarget_unmoved (hu : Unmoved db db') (parentId : Option ℕ) :
    membershipTarget db' w parentId = membershipTarget db w parentId := by
  cases parentId with
  | none => cases w <;> simp [membershipTarget, findWorkspaceOwner, hu.frame.users, hu.frame.teams]
  | some k => simp [membershipTarget, hu.frame.tree]

theorem enforceMembership_ok (h : enforceCollectionMembershipMutationOn db w parentId credentials now = .ok db') :
    Unmoved db db' ∧ ∃ root above, membershipTarget db w parentId = .ok (root, above) ∧
      Permits db { workspace := w, root, depth := .resource } above credentials now := by
  unfold enforceCollectionMembershipMutationOn at h
  rcases hns : lockWorkspaceForMutationOn db w with ⟨ns, db1⟩
  rw [hns] at h
  obtain ⟨⟨root, above⟩, htarget, h⟩ := bind_ok h
  obtain ⟨⟨⟩, hperm, h⟩ := bind_ok h
  cases h
  obtain ⟨hu, hget, hnsw⟩ := lockWorkspaceForMutationOn_unmoved hns
  rw [membershipTarget_unmoved hu] at htarget
  exact ⟨hu, root, above, htarget, (enforceMutationLocks_ok hget hnsw hperm).congr hu⟩

/-! What is permitted goes through, if the rows are there. -/

theorem enforceMutationLocks_of_permits (hns : db.namespaces.get ns.id = some ns)
    (hw : ns.workspace = target.workspace) (h : Permits db target parentId credentials now) :
    enforceMutationLocksInNamespaceOn db ns.id target parentId credentials now = .ok () := by
  unfold enforceMutationLocksInNamespaceOn
  rw [if_neg]
  intro hany
  obtain ⟨l, hl, hprop⟩ := List.any_eq_true.mp hany
  simp only [Bool.and_eq_true, Bool.not_eq_true'] at hprop
  obtain ⟨hrow, hln⟩ := LockTables.mem_findAllByNamespace.mp hl
  have hlw : db.workspaceOf l.namespaceId = some target.workspace := by
    simp [LockTables.workspaceOf, hln, hns, hw]
  have hsat := h l hrow hlw hprop.1.1 hprop.1.2
  rw [hprop.2] at hsat
  cases hsat

theorem enforceFolderMutationOn_of_permits {folder : Folder} {depth : LockDepth}
    (hf : db.tree.folders.get folder.id = some folder) (hw : folder.workspace = some w)
    (h : Permits db { workspace := w, root := .folder folder.id, depth } folder.parentId credentials now) :
    ∃ db', enforceFolderMutationOn db folder depth credentials now = .ok (folder, db') := by
  rcases hns : lockWorkspaceForMutationOn db w with ⟨ns, db1⟩
  obtain ⟨hu, hget, hnsw⟩ := lockWorkspaceForMutationOn_unmoved hns
  have hrow : lockFolderById db1.tree.folders folder.id = .ok folder := by
    rw [lockFolderById_ok, hu.frame.tree]
    exact hf
  refine ⟨db1, bind_ok_iff.mpr ⟨w, workspaceOfFolder_ok.mpr hw, ?_⟩⟩
  rw [hns]
  refine bind_ok_iff.mpr ⟨folder, hrow, bind_ok_iff.mpr ⟨w, workspaceOfFolder_ok.mpr hw, ?_⟩⟩
  refine bind_ok_iff.mpr ⟨(), requireWorkspace_ok.mpr rfl, bind_ok_iff.mpr ⟨(), ?_, rfl⟩⟩
  exact enforceMutationLocks_of_permits hget hnsw (h.mono hu)

theorem enforceFileMutationOn_of_permits {file : File} (hf : db.tree.files.get file.id = some file)
    (hw : file.workspace = some w)
    (h : Permits db { workspace := w, root := .file file.id, depth := .resource } file.folderId credentials now) :
    ∃ db', enforceFileMutationOn db file credentials now = .ok (file, db') := by
  rcases hns : lockWorkspaceForMutationOn db w with ⟨ns, db1⟩
  obtain ⟨hu, hget, hnsw⟩ := lockWorkspaceForMutationOn_unmoved hns
  have hrow : findFileById db1.tree.files file.id = .ok file := by
    rw [findFileById_ok, hu.frame.tree]
    exact hf
  refine ⟨db1, bind_ok_iff.mpr ⟨w, workspaceOfFile_ok.mpr hw, ?_⟩⟩
  rw [hns]
  refine bind_ok_iff.mpr ⟨file, hrow, bind_ok_iff.mpr ⟨w, workspaceOfFile_ok.mpr hw, ?_⟩⟩
  refine bind_ok_iff.mpr ⟨(), requireWorkspace_ok.mpr rfl, bind_ok_iff.mpr ⟨(), ?_, rfl⟩⟩
  exact enforceMutationLocks_of_permits hget hnsw (h.mono hu)

theorem enforceMembership_of_permits {root : LockRoot} {above : Option ℕ}
    (htarget : membershipTarget db w parentId = .ok (root, above))
    (h : Permits db { workspace := w, root, depth := .resource } above credentials now) :
    ∃ db', enforceCollectionMembershipMutationOn db w parentId credentials now = .ok db' := by
  rcases hns : lockWorkspaceForMutationOn db w with ⟨ns, db1⟩
  obtain ⟨hu, hget, hnsw⟩ := lockWorkspaceForMutationOn_unmoved hns
  refine ⟨db1, ?_⟩
  unfold enforceCollectionMembershipMutationOn
  rw [hns]
  refine bind_ok_iff.mpr ⟨(root, above), ?_, bind_ok_iff.mpr ⟨(), ?_, rfl⟩⟩
  · rw [membershipTarget_unmoved hu]
    exact htarget
  · exact enforceMutationLocks_of_permits hget hnsw (h.mono hu)

end

/-! ### Coverage, in terms of the tree -/

/-- A deep lock on `r` reaches `r'`: `r` is a folder above it, or the workspace root. -/
def Over (t : Tree) : LockRoot → LockRoot → Prop
  | .workspaceRoot, .workspaceRoot => False
  | .workspaceRoot, _ => True
  | .folder a, .folder b => Forest.Above (parentOf t.folders) a b
  | .folder a, .file f => ∃ x p, t.files.get f = some x ∧ x.folderId = some p ∧
      Forest.AtOrAbove (parentOf t.folders) a p
  | _, _ => False

/-- The lock covers the resource: it is rooted there, or deep and rooted above. -/
def Covers (t : Tree) (l : ResourceLock) (r : LockRoot) : Prop := l.root = r ∨ l.depth = .infinity ∧ Over t l.root r

section

variable {t : Tree} {w : WorkspaceResourceScope} {l : ResourceLock} {depth : LockDepth} {k a : ℕ}

theorem mem_loadAncestorIds_folder {f : Folder} (h : LiveForest w t.folders) (hf : t.folders.get k = some f)
    (hact : f.ActiveIn w) :
    a ∈ loadAncestorIds t.folders w f.parentId ↔ Forest.Above (parentOf t.folders) a k := by
  have hparent : parentOf t.folders k = f.parentId := Forest.parentIn_of_lookup hf
  rw [Forest.above_iff, hparent]
  cases hp : f.parentId with
  | none => simp [loadAncestorIds]
  | some p =>
    obtain ⟨g, hg, hgact⟩ := h.parents f (Table.mem_of_get hf) hact p hp
    simp only [loadAncestorIds, mem_findAncestorModels h hg hgact, Option.some.injEq, exists_eq_left']

theorem mem_loadAncestorIds_file {f : File} (h : WellFormed t) (hf : t.files.get k = some f)
    (hact : File.ActiveIn f w) :
    a ∈ loadAncestorIds t.folders w f.folderId ↔ Over t (.folder a) (.file k) := by
  cases hp : f.folderId with
  | none =>
    constructor
    · intro hmem
      simp [loadAncestorIds] at hmem
    · rintro ⟨x, p, hx, hxp, -⟩
      obtain rfl := Option.some.inj (hf.symm.trans hx)
      rw [hp] at hxp
      cases hxp
  | some p =>
    obtain ⟨g, hg, hgact⟩ := h.files f (Table.mem_of_get hf) w hact p hp
    simp only [loadAncestorIds, mem_findAncestorModels (h.forest w) hg hgact]
    constructor
    · intro hap
      exact ⟨f, p, hf, hp, hap⟩
    · rintro ⟨x, q, hx, hxq, haq⟩
      obtain rfl := Option.some.inj (hf.symm.trans hx)
      obtain rfl := Option.some.inj (hp.symm.trans hxq)
      exact haq

theorem lockCoversTarget_folder {f : Folder} (h : LiveForest w t.folders) (hf : t.folders.get k = some f)
    (hact : f.ActiveIn w) :
    lockCoversTarget l { workspace := w, root := .folder k, depth }
      (loadAncestorIds t.folders w f.parentId) ↔ Covers t l (.folder k) := by
  unfold lockCoversTarget Covers
  cases hroot : l.root with
  | workspaceRoot | file i => simp [Over]
  | folder a =>
    simp only [Bool.or_eq_true, Bool.and_eq_true, decide_eq_true_eq, LockRoot.folder.injEq, Over,
      mem_loadAncestorIds_folder h hf hact]
    exact or_congr_left eq_comm

theorem lockCoversTarget_file {f : File} (h : WellFormed t) (hf : t.files.get k = some f) (hact : File.ActiveIn f w) :
    lockCoversTarget l { workspace := w, root := .file k, depth }
      (loadAncestorIds t.folders w f.folderId) ↔ Covers t l (.file k) := by
  unfold lockCoversTarget Covers
  cases hroot : l.root with
  | workspaceRoot => simp [Over]
  | file i =>
    simp only [decide_eq_true_eq, LockRoot.file.injEq, Over, and_false, or_false]
    exact eq_comm
  | folder a => simp [mem_loadAncestorIds_file h hf hact]

theorem lockCoversTarget_root :
    lockCoversTarget l { workspace := w, root := .workspaceRoot, depth } [] ↔ Covers t l .workspaceRoot := by
  unfold lockCoversTarget Covers
  cases hroot : l.root <;> simp [Over]

end

end AsterDrive.Locks
