import AsterDrive.Files.ConcurrentMoves
import AsterDrive.Locks.Enforcement

/-!
# Trash — a folder tree into the trash and out of it

`delete_tree_in_scope_on` sets `deleted_at` on the live subtree of a folder; `restore_folder_in_scope` clears it on the
whole subtree, whatever went to the trash before. Both in one piece, on the committed rows: the statements of the
transactions are those of `Concurrent`, here with the lock evaluator and with the unique indexes on live names.

Activity records are left out. The access check of `restore_folder_in_scope` is a parameter.
-/

namespace AsterDrive.Files.Trash

open Db Locks
open Concurrent (restoreRoot restoreMany parentRestoreTargetUnavailable restoredRow get_restored)

/-! ### Live names -/

/-- `idx_folders_unique_live_name`: workspace, parent and name of a folder that is not in the trash. -/
def Folder.liveName (f : Folder) : Option (WorkspaceResourceScope × ℕ × String) :=
  if f.deletedAt = none then f.workspace.map fun w => (w, f.parentId.getD 0, f.name) else none

/-- `idx_folders_unique_live_name` -/
def FolderNamesDistinct (t : Folders) : Prop :=
  ∀ f ∈ t.rows, ∀ g ∈ t.rows, (Folder.liveName f).isSome = true → Folder.liveName f = Folder.liveName g → f.id = g.id

/-- `idx_files_unique_live_name` -/
def FileNamesDistinct (t : Db.Files) : Prop :=
  ∀ f ∈ t.rows, ∀ g ∈ t.rows, f.liveName.isSome = true → f.liveName = g.liveName → f.id = g.id

instance (t : Folders) : Decidable (FolderNamesDistinct t) := by
  unfold FolderNamesDistinct
  infer_instance

instance (t : Db.Files) : Decidable (FileNamesDistinct t) := by
  unfold FileNamesDistinct
  infer_instance

/-- Live siblings of one kind have distinct names. -/
structure NamesDistinct (t : Tree) : Prop where
  folders : FolderNamesDistinct t.folders
  files : FileNamesDistinct t.files

section

-- whether a task that empties the trash of the workspace is active
variable (purging : WorkspaceResourceScope → Bool)

/-- `coordination::admit_mutation_on` -/
def admitMutationOn (db : LockDb) (scope : WorkspaceResourceScope) : Except AsterError LockDb :=
  if purging scope then
    .error (.conflict
      { message := "Trash is being emptied; wait until the task finishes before restoring or deleting items"
        apiCode := some .trashPurgeInProgress })
  else .ok (lockWorkspaceForMutationOn db scope).2

/-! ### Into the trash -/

def sameIds (ids ids' : List ℕ) : Bool := (∀ i ∈ ids, i ∈ ids') ∧ ∀ i ∈ ids', i ∈ ids

/-- `collect_locked_folder_tree_in_scope`: collected, locked, and collected again, until nothing has changed. -/
def collectLockedFolderTreeInScope (t : Tree) (scope : WorkspaceResourceScope) (folderId : ℕ)
    (limits : Option TraversalLimits) : ℕ → Except AsterError (List File × List ℕ)
  | 0 => .error (internalError "folder tree did not stabilize while acquiring delete locks")
  | n + 1 => do
    let found ← collectFolderTreeInScope t scope folderId false limits
    found.2.forM fun id => (lockFolderById t.folders id).map fun _ => PUnit.unit
    let confirmed ← collectFolderTreeInScope t scope folderId false limits
    if sameIds found.2 confirmed.2 then .ok confirmed
    else collectLockedFolderTreeInScope t scope folderId limits n

/-- The lock on the root, unless the caller has seen to it. -/
def lockDeletedRoot (db : LockDb) (snapshot : Folder) (allowLockedRoot : Bool) (now : ℕ) : Except AsterError LockDb :=
  if allowLockedRoot then (lockFolderById db.tree.folders snapshot.id).map fun _ => db
  else (enforceFolderMutationOn db snapshot .infinity .none now).map Prod.snd

/-- The locks on what lies below the root. -/
def enforceBelow (db : LockDb) (files : List File) (folderIds : List ℕ) (now : ℕ) : Except AsterError LockDb := do
  let db ← files.foldlM (fun db file => (enforceFileMutationOn db file .none now).map Prod.snd) db
  folderIds.foldlM (fun db id => do
    let descendant ← findFolderById db.tree.folders id
    (enforceFolderMutationOn db descendant .resource .none now).map Prod.snd) db

structure LockedFolderTreeDeletion where
  db : LockDb
  fileIds : List ℕ
  folderIds : List ℕ

/-- `lock_tree_for_deletion_on` -/
def lockTreeForDeletionOn (db : LockDb) (scope : WorkspaceStorageScope) (folderId : ℕ) (limits : Option TraversalLimits)
    (allowLockedRoot : Bool) (now : ℕ) : Except AsterError LockedFolderTreeDeletion := do
  let db ← admitMutationOn purging db scope.resource
  let snapshot ← findFolderById db.tree.folders folderId
  ensureActiveFolderScope snapshot scope
  let db ← lockDeletedRoot db snapshot allowLockedRoot now
  let found ← collectLockedFolderTreeInScope db.tree scope.resource folderId limits 8
  let db ← (if allowLockedRoot then .ok db else enforceBelow db found.1 (found.2.filter (· ≠ folderId)) now)
  .ok { db, fileIds := found.1.map File.id, folderIds := found.2 }

/-- `file_repo::soft_delete_many` and `folder_repo::soft_delete_many` -/
def softDeleteMany (fileIds folderIds : List ℕ) (now : ℕ) (t : Tree) : Tree where
  files := t.files.updateRows (fun f => f.id ∈ fileIds) (fun f => { f with deletedAt := some now }) fun _ => rfl
  folders := t.folders.updateRows (fun f => f.id ∈ folderIds) (fun f => { f with deletedAt := some now }) fun _ => rfl

/-- `delete_tree_in_scope_on` -/
def deleteTreeInScopeOn (db : LockDb) (scope : WorkspaceStorageScope) (folderId : ℕ) (limits : Option TraversalLimits)
    (now : ℕ) (allowLockedRoot : Bool) : Except AsterError LockDb := do
  let locked ← lockTreeForDeletionOn purging db scope folderId limits allowLockedRoot now
  .ok { locked.db with tree := softDeleteMany locked.fileIds locked.folderIds now locked.db.tree }

/-! ### Out of the trash -/

/-- Whether the folder has to go to the root of the workspace. -/
def restoresToRoot (t : Folders) (scope : WorkspaceStorageScope) (folder : Folder) : Bool :=
  folder.parentId.any fun p => parentRestoreTargetUnavailable (t.get p) scope

/-- `restore_folder_in_scope` -/
def restoreFolderInScope (access : Except AsterError Unit) (db : LockDb) (scope : WorkspaceStorageScope) (id : ℕ)
    (limits : Option TraversalLimits) : Except AsterError LockDb := do
  access
  let db ← admitMutationOn purging db scope.resource
  let folder ← findFolderById db.tree.folders id
  ensureFolderResourceScope folder scope.resource
  if folder.deletedAt.isNone then .error (validationError "folder is not in trash")
  else do
    let found ← collectFolderTreeInScope db.tree scope.resource id true limits
    let withRoot := restoreRoot id (restoresToRoot db.tree.folders scope folder) db.tree
    let restored := restoreMany (found.1.map File.id) (found.2.filter (· ≠ id)) withRoot
    if ¬ FolderNamesDistinct withRoot.folders then .error (duplicateFolderNameError folder.name)
    else if ¬ FileNamesDistinct restored.files then
      .error (validationError "one or more files already exist in their original folders")
    else if ¬ FolderNamesDistinct restored.folders then
      .error (validationError "one or more folders already exist in their original locations")
    else .ok { db with tree := restored }

end

/-! ### The subtree of a folder -/

/-- The folders of a subtree that a traversal takes up. -/
inductive InSubtree (t : Folders) (scope : WorkspaceResourceScope) (incl : Bool) (root : ℕ) : ℕ → Prop
  | root : InSubtree t scope incl root root
  | child {c p : ℕ} {f : Folder} (hf : t.get c = some f) (htaken : f.TakenIn scope incl) (hp : f.parentId = some p)
      (h : InSubtree t scope incl root p) : InSubtree t scope incl root c

section Subtree

variable {t : Tree} {scope : WorkspaceResourceScope} {incl : Bool} {root : ℕ} {files : List File} {ids : List ℕ}

theorem InSubtree.mono {t : Folders} {c : ℕ} (h : InSubtree t scope false root c) : InSubtree t scope true root c := by
  induction h with
  | root => exact .root
  | child hf htaken hp _ ih => exact .child hf ⟨htaken.1, .inl rfl⟩ hp ih

theorem Frontier.mem_ids (h : Frontier t scope incl root files ids []) (c : ℕ) :
    c ∈ ids ↔ InSubtree t.folders scope incl root c := by
  have hdone : ∀ i, i ∈ ids ∨ i ∈ ([] : List ℕ) ↔ i ∈ ids := by simp
  constructor
  · intro hc
    -- along the parents from the root down to the folder
    have hpath := h.below c (.inl hc)
    induction hpath with
    | refl => exact .root
    | @tail p c hrp hpc ih =>
      rcases h.origin c (.inl hc) with rfl | ⟨f, p', hf, htaken, hp, hids⟩
      · exact .root
      · have hparent : parentOf t.folders c = some p' := (Forest.parentIn_of_lookup hf).trans hp
        obtain rfl : p' = p := Option.some.inj (hparent.symm.trans hpc)
        exact .child hf htaken hp (ih hids)
  · intro hc
    induction hc with
    | root => exact (hdone root).mp h.top
    | child hf htaken hp _ ih => exact (hdone _).mp (h.closed _ _ _ hf htaken hp ih)

end Subtree

end AsterDrive.Files.Trash
