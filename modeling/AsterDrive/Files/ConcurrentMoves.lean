import AsterDrive.Files.Tree
import AsterDrive.Lib.LockedTxn

/-!
# ConcurrentMoves — moves and restores that run at the same time

`update_in_scope`, the transaction of `batch_move_in_scope` and `restore_folder_in_scope`, statement by
statement, as texts over the committed tree. Each of them reads before it has the row of the
workspace's lock namespace, takes that row, and reads again; what it decides on is what it read the
second time. The row is held until the transaction ends.

Row locks on folders only make a transaction wait, so leaving them out allows more interleavings. The
lock evaluator, the unique index on names and the task table can refuse a transaction; here the
environment decides whether they do.

Main result: `forest_kept`, in every interleaving of any number of them the folders stay a forest in
which whatever is not in the trash hangs from something that is not in the trash.
-/

namespace AsterDrive.Files.Concurrent

open Db LockedTxn Option

/-- A transaction of the workspace. -/
abbrev Txn := Tx Tree AsterError

def findFolder (id : ℕ) : Txn Folder := Tx.query fun t => findFolderById t.folders id

def lockFolder (id : ℕ) : Txn Folder := Tx.query fun t => lockFolderById t.folders id

def lockFile (id : ℕ) : Txn File := Tx.query fun t => findFileById t.files id

section Texts

-- the workspace whose transactions run here
variable (w : WorkspaceResourceScope)

/-- `lock_workspace_for_mutation_on`: the namespace row of another workspace is not contended here. -/
def lockWorkspaceForMutationOn (workspace : WorkspaceResourceScope) : Txn Unit :=
  if workspace = w then Tx.takeLock else pure ()

/-- `enforce_folder_mutation_on`. -/
def enforceFolderMutationOn (folder : Folder) : Txn Folder := do
  let workspace ← Tx.check (workspaceOfFolder folder)
  lockWorkspaceForMutationOn w workspace
  let current ← lockFolder folder.id
  let currentWorkspace ← Tx.check (workspaceOfFolder current)
  if currentWorkspace ≠ workspace then
    Tx.fail (resourceLocked "folder workspace changed during mutation lock validation")
  else do
    Tx.mayRefuse (resourceLocked "resource is locked")
    pure current

/-- `enforce_file_mutation_on`. -/
def enforceFileMutationOn (file : File) : Txn File := do
  let workspace ← Tx.check (workspaceOfFile file)
  lockWorkspaceForMutationOn w workspace
  let current ← lockFile file.id
  let currentWorkspace ← Tx.check (workspaceOfFile current)
  if currentWorkspace ≠ workspace then
    Tx.fail (resourceLocked "file workspace changed during mutation lock validation")
  else do
    Tx.mayRefuse (resourceLocked "resource is locked")
    pure current

/-- `enforce_collection_membership_mutation_on`. -/
def enforceCollectionMembershipMutationOn (workspace : WorkspaceResourceScope)
    (parentFolderId : Option ℕ) : Txn Unit := do
  lockWorkspaceForMutationOn w workspace
  match parentFolderId with
  | some folderId => do
    let parent ← lockFolder folderId
    let parentWorkspace ← Tx.check (workspaceOfFolder parent)
    if parentWorkspace ≠ workspace then
      Tx.fail (resourceLocked "parent folder workspace changed during membership mutation")
    else Tx.mayRefuse (resourceLocked "resource is locked")
  | none => Tx.mayRefuse (resourceLocked "resource is locked")

/-- The loop of `load_folder_chain_in_scope`, one statement a round. -/
def loadFolderChainRounds (scope : WorkspaceStorageScope) : ℕ → List ℕ → Option ℕ → Txn (List Folder)
  | _, _, none => pure []
  | 0, _, some _ => Tx.fail (internalError "folder chain is longer than the table")
  | n + 1, seen, some id =>
    if id ∈ seen then Tx.fail (validationError "folder hierarchy contains a cycle")
    else do
      let folder ← findFolder id
      Tx.check (ensureActiveFolderScope folder scope)
      let rest ← loadFolderChainRounds scope n (id :: seen) folder.parentId
      pure (folder :: rest)

/-- `load_folder_chain_in_scope`. -/
def loadFolderChain (scope : WorkspaceStorageScope) (start : Option ℕ) : Txn (List Folder) :=
  Tx.read fun t => loadFolderChainRounds scope (t.folders.rows.length + 1) [] start

/-- `lock_folder_ids_in_order`; the order only matters for waiting. -/
def lockFolderIdsInOrder (ids : List ℕ) : Txn Unit :=
  ids.dedup.forM fun id => do
    let _ ← lockFolder id
    pure ()

/-- The membership checks of a move: the folder leaves one collection and enters another. -/
def enforceMembershipsOfMove (current : Folder) (targetParent : Option ℕ) : Txn Unit :=
  if targetParent ≠ current.parentId then do
    let workspace ← Tx.check (workspaceOfFolder current)
    enforceCollectionMembershipMutationOn w workspace current.parentId
    enforceCollectionMembershipMutationOn w workspace targetParent
  else pure ()

/-- The columns that `update_in_scope` writes. -/
def patchFolder (name : Option String) (parentId : NullablePatch ℕ) (f : Folder) : Folder :=
  { f with name := name.getD f.name, parentId := parentId.apply f.parentId }

def updateFolder (id : ℕ) (name : Option String) (parentId : NullablePatch ℕ) (t : Tree) : Tree :=
  { t with folders := t.folders.updateRows (fun f => f.id = id) (patchFolder name parentId) fun _ => rfl }

/-- `update_in_scope`: rename or move a folder. `name` is the validated name. -/
def updateInScope (normalizeName : String → String) (scope : WorkspaceStorageScope) (id : ℕ)
    (name : Option String) (parentId : NullablePatch ℕ) : Txn Unit := do
  if parentId = .value id then
    Tx.fail (validationError "cannot move folder into itself")
  else do
  let preview ← findFolder id
  Tx.check (ensureActiveFolderScope preview scope)
  let initialTargetChain ← loadFolderChain scope (parentId.apply preview.parentId)
  lockFolderIdsInOrder (id :: initialTargetChain.map Folder.id)
  let current ← enforceFolderMutationOn w preview
  Tx.check (ensureActiveFolderScope current scope)
  let targetParent := parentId.apply current.parentId
  let targetChain ← loadFolderChain scope targetParent
  enforceMembershipsOfMove w current targetParent
  if id ∈ targetChain.map Folder.id then
    Tx.fail (validationError "cannot move folder into its own subfolder")
  else do
  let finalName := name.getD current.name
  let existing ← Tx.query fun t =>
    .ok (findFolderByNameInScope normalizeName t.folders scope.resource targetParent finalName)
  if ∃ e ∈ existing, e.id ≠ id then
    Tx.fail (duplicateFolderNameError finalName)
  else if finalName = current.name ∧ targetParent = current.parentId then pure ()
  else do
    Tx.mayRefuse (duplicateFolderNameError finalName)
    Tx.update (updateFolder id name parentId)

/-! #### Batch moves -/

/-- `move_many_to_folder` and `move_many_to_parent`. -/
def moveMany (fileIds folderIds : List ℕ) (target : Option ℕ) (t : Tree) : Tree where
  files := t.files.updateRows (fun f => f.id ∈ fileIds) (fun f => { f with folderId := target }) fun _ => rfl
  folders := t.folders.updateRows (fun f => f.id ∈ folderIds) (fun f => { f with parentId := target }) fun _ => rfl

/-- `revalidate_batch_folder_move`. -/
def revalidateBatchFolderMove (scope : WorkspaceStorageScope) (folderIds : List ℕ) (target : Option ℕ) :
    Txn Unit :=
  match folderIds with
  | [] => pure ()
  | first :: _ => do
    let workspaceSnapshot ← findFolder first
    Tx.check (ensureActiveFolderScope workspaceSnapshot scope)
    let workspace ← Tx.check (workspaceOfFolder workspaceSnapshot)
    lockWorkspaceForMutationOn w workspace
    let initialTargetChain ← loadFolderChain scope target
    lockFolderIdsInOrder (folderIds ++ initialTargetChain.map Folder.id)
    let targetChain ← loadFolderChain scope target
    folderIds.forM fun folderId => do
      let folder ← lockFolder folderId
      Tx.check (ensureActiveFolderScope folder scope)
      let _ ← enforceFolderMutationOn w folder
      if folderId ∈ targetChain.map Folder.id then
        Tx.fail (validationError "cannot move folder into its own subfolder")
      else pure ()

/-- The target of a batch move is locked first. -/
def lockTargetFolder (scope : WorkspaceStorageScope) (target : Option ℕ) : Txn Unit :=
  match target with
  | some targetFolderId => do
    let targetFolder ← lockFolder targetFolderId
    Tx.check (ensureActiveFolderScope targetFolder scope)
  | none => pure ()

/-- The transaction of `batch_move_in_scope`. The phase before it only reads and picks; `files` and
`folders` are the rows it picked, as it saw them. -/
def batchMoveInScope (scope : WorkspaceStorageScope) (files : List File) (folders : List Folder)
    (target : Option ℕ) : Txn Unit := do
  lockTargetFolder scope target
  (target :: (files.map File.folderId ++ folders.map Folder.parentId)).dedup.forM fun parentId =>
    enforceCollectionMembershipMutationOn w scope.resource parentId
  files.forM fun snapshot => do
    let current ← enforceFileMutationOn w snapshot
    Tx.check (ensureActiveFileScope current scope)
  revalidateBatchFolderMove w scope (folders.map Folder.id) target
  Tx.mayRefuse (validationError "one or more folders already exist in target folder")
  Tx.update (moveMany (files.map File.id) (folders.map Folder.id) target)

/-! #### Restores -/

/-- The loop of `collect_folder_forest_in_resource_scope` with `include_deleted`, a level at a time. -/
def collectLevelRounds (scope : WorkspaceResourceScope) (limits : Option TraversalLimits) :
    ℕ → List File → List ℕ → List ℕ → ℕ → Txn (List File × List ℕ)
  | 0, _, _, _, _ => Tx.fail (internalError "folder tree is deeper than the table")
  | n + 1, files, folderIds, frontier, depth =>
    let level := frontier.dedup.filter fun id => id ∉ folderIds
    if level = [] then pure (files, folderIds)
    else do
      Tx.check (checkFolderTreeFrontierLimits limits level.length depth)
      Tx.check (checkFolderTreeResourceLimits limits folderIds.length files.length level.length)
      let found ← Tx.query fun t => .ok (levelFiles t.files scope true level)
      Tx.check (checkFolderTreeResourceLimits limits (folderIds ++ level).length files.length found.length)
      let next ← Tx.query fun t => .ok (childrenInParents t.folders scope true level)
      collectLevelRounds scope limits n (files ++ found) (folderIds ++ level) next (depth + 1)

/-- `collect_folder_tree_in_scope` with `include_deleted`. -/
def collectFolderTree (scope : WorkspaceResourceScope) (folderId : ℕ) (limits : Option TraversalLimits) :
    Txn (List File × List ℕ) :=
  Tx.read fun t => collectLevelRounds scope limits (t.folders.rows.length + 2) [] [] [folderId] 0

/-- `parent_restore_target_unavailable`, on the outcome of looking the parent up. -/
def parentRestoreTargetUnavailable (parent : Option Folder) (scope : WorkspaceStorageScope) : Bool :=
  match parent with
  | none => true
  | some parent =>
    match ensureFolderResourceScope parent scope.resource with
    | .ok () => parent.deletedAt.isSome
    | .error _ => true

/-- Whether a folder out of the trash has to go to the root of the workspace. -/
def hasToGoToRoot (scope : WorkspaceStorageScope) (parentId : Option ℕ) : Txn Bool :=
  match parentId with
  | none => pure false
  | some parentId =>
    Tx.query fun t => .ok (parentRestoreTargetUnavailable (t.folders.get parentId) scope)

/-- The root of a restored subtree: out of the trash, and at the workspace root if it has to. -/
def restoreRoot (id : ℕ) (restoreToRoot : Bool) (t : Tree) : Tree :=
  { t with
    folders := t.folders.updateRows (fun f => f.id = id)
      (fun f => { f with deletedAt := none, parentId := if restoreToRoot then none else f.parentId })
      fun _ => rfl }

/-- `file_repo::restore_many` and `folder_repo::restore_many`. -/
def restoreMany (fileIds folderIds : List ℕ) (t : Tree) : Tree where
  files := t.files.updateRows (fun f => f.id ∈ fileIds) (fun f => { f with deletedAt := none }) fun _ => rfl
  folders := t.folders.updateRows (fun f => f.id ∈ folderIds) (fun f => { f with deletedAt := none }) fun _ => rfl

/-- `restore_folder_in_scope`. -/
def restoreFolderInScope (scope : WorkspaceStorageScope) (id : ℕ) (limits : Option TraversalLimits) :
    Txn Unit := do
  lockWorkspaceForMutationOn w scope.resource
  Tx.mayRefuse (.conflict
    { message :=
        "Trash is being emptied; wait until the task finishes before restoring or deleting items"
      apiCode := some .trashPurgeInProgress })
  let folder ← findFolder id
  Tx.check (ensureFolderResourceScope folder scope.resource)
  if folder.deletedAt.isNone then
    Tx.fail (validationError "folder is not in trash")
  else do
  let (files, folderIds) ← collectFolderTree scope.resource id limits
  let restoreToRoot ← hasToGoToRoot scope folder.parentId
  Tx.mayRefuse (duplicateFolderNameError folder.name)
  Tx.update (restoreRoot id restoreToRoot)
  Tx.mayRefuse (validationError "one or more folders already exist in their original locations")
  Tx.update (restoreMany (files.map File.id) (folderIds.filter (· ≠ id)))

end Texts

/-- A request of somebody who acts in the workspace. -/
inductive Operation
  | update (id : ℕ) (name : Option String) (parentId : NullablePatch ℕ)
  | batchMove (files : List File) (folders : List Folder) (target : Option ℕ)
  | restore (id : ℕ) (limits : Option TraversalLimits)

structure Request (w : WorkspaceResourceScope) where
  scope : WorkspaceStorageScope
  inWorkspace : scope.resource = w
  operation : Operation

/-- The transaction of a request. -/
def Request.text {w : WorkspaceResourceScope} (normalizeName : String → String) (r : Request w) : Txn Unit :=
  match r.operation with
  | .update id name parentId => updateInScope w normalizeName r.scope id name parentId
  | .batchMove files folders target => batchMoveInScope w r.scope files folders target
  | .restore id limits => restoreFolderInScope w r.scope id limits

/-! ### What the parts of the texts do -/

section Parts

variable {w ws : WorkspaceResourceScope} {scope : WorkspaceStorageScope} {I : Tree → Prop} {t : Tree}

variable {Q : Unit → Tree → Prop}

theorem holds_lockWorkspace : (lockWorkspaceForMutationOn w ws).Holds Q t ↔ Q () t := by
  unfold lockWorkspaceForMutationOn
  split_ifs
  · exact Tx.holds_takeLock
  · exact Tx.holds_pure

variable {P : Unit → Prop}

theorem before_lockWorkspace (hw : ws = w)
    (h : ∀ s, I s → Q () s) : (lockWorkspaceForMutationOn w ws).Before I P Q := by
  unfold lockWorkspaceForMutationOn
  rw [if_pos hw]
  exact Tx.before_takeLock h

variable {id : ℕ}

theorem holds_lockFolder {Q : Folder → Tree → Prop} :
    (lockFolder id).Holds Q t ↔ ∀ f, t.folders.get id = some f → Q f t := by
  unfold lockFolder
  rw [Tx.holds_query]
  exact forall_congr' fun f => by rw [lockFolderById_ok]

theorem holds_findFolder {Q : Folder → Tree → Prop} :
    (findFolder id).Holds Q t ↔ ∀ f, t.folders.get id = some f → Q f t := by
  unfold findFolder
  rw [Tx.holds_query]
  exact forall_congr' fun f => by rw [findFolderById_ok]

theorem holds_lockFile {Q : File → Tree → Prop} : (lockFile id).Holds Q t ↔ ∀ f, t.files.get id = some f → Q f t := by
  unfold lockFile
  rw [Tx.holds_query]
  exact forall_congr' fun f => by rw [findFileById_ok]

theorem holds_enforceFolder {folder : Folder} {Q : Folder → Tree → Prop}
    (h : ∀ f, t.folders.get folder.id = some f → Q f t) : (enforceFolderMutationOn w folder).Holds Q t := by
  unfold enforceFolderMutationOn
  rw [Tx.holds_bind, Tx.holds_check]
  intro ws _
  rw [Tx.holds_bind, holds_lockWorkspace, Tx.holds_bind, holds_lockFolder]
  intro f hf
  rw [Tx.holds_bind, Tx.holds_check]
  intro ws' _
  split_ifs
  · trivial
  · rw [Tx.holds_bind, Tx.holds_mayRefuse]
    exact h f hf

theorem before_enforceFolder {folder : Folder} {P : Folder → Prop} {Q : Folder → Tree → Prop}
    (hw : folder.workspace = some w) (h : ∀ s, I s → ∀ f, s.folders.get folder.id = some f → Q f s) :
    (enforceFolderMutationOn w folder).Before I P Q := by
  refine Tx.before_bind (Tx.before_check fun ws hws => ?_)
  obtain rfl : w = ws := some.inj (hw.symm.trans (workspaceOfFolder_ok.mp hws))
  refine Tx.before_bind (before_lockWorkspace rfl fun s hs => ?_)
  rw [Tx.holds_bind, holds_lockFolder]
  intro f hf
  rw [Tx.holds_bind, Tx.holds_check]
  intro ws' _
  split_ifs
  · trivial
  · rw [Tx.holds_bind, Tx.holds_mayRefuse]
    exact h s hs f hf

theorem holds_enforceFile {file : File} {Q : File → Tree → Prop}
    (h : ∀ f, t.files.get file.id = some f → Q f t) : (enforceFileMutationOn w file).Holds Q t := by
  unfold enforceFileMutationOn
  rw [Tx.holds_bind, Tx.holds_check]
  intro ws _
  rw [Tx.holds_bind, holds_lockWorkspace, Tx.holds_bind, holds_lockFile]
  intro f hf
  rw [Tx.holds_bind, Tx.holds_check]
  intro ws' _
  split_ifs
  · trivial
  · rw [Tx.holds_bind, Tx.holds_mayRefuse]
    exact h f hf

theorem holds_membership {parentId : Option ℕ} (h : Q () t) :
    (enforceCollectionMembershipMutationOn w ws parentId).Holds Q t := by
  unfold enforceCollectionMembershipMutationOn
  rw [Tx.holds_bind, holds_lockWorkspace]
  cases parentId with
  | none => exact Tx.holds_mayRefuse.mpr h
  | some folderId =>
    show Tx.Holds (lockFolder folderId >>= _) Q t
    rw [Tx.holds_bind, holds_lockFolder]
    intro f _
    rw [Tx.holds_bind, Tx.holds_check]
    intro ws' _
    split_ifs
    · trivial
    · exact Tx.holds_mayRefuse.mpr h

theorem holds_membershipsOfMove {current : Folder} {target : Option ℕ}
    (h : Q () t) : (enforceMembershipsOfMove w current target).Holds Q t := by
  unfold enforceMembershipsOfMove
  split_ifs
  · rw [Tx.holds_bind, Tx.holds_check]
    intro ws _
    rw [Tx.holds_bind]
    exact holds_membership (holds_membership h)
  · exact h

theorem before_membership {parentId : Option ℕ}
    (h : ∀ s, I s → Q () s) : (enforceCollectionMembershipMutationOn w w parentId).Before I P Q := by
  refine Tx.before_bind (before_lockWorkspace rfl fun s hs => ?_)
  cases parentId with
  | none => exact Tx.holds_mayRefuse.mpr (h s hs)
  | some folderId =>
    show Tx.Holds (lockFolder folderId >>= _) Q s
    rw [Tx.holds_bind, holds_lockFolder]
    intro f _
    rw [Tx.holds_bind, Tx.holds_check]
    intro ws' _
    split_ifs
    · trivial
    · exact Tx.holds_mayRefuse.mpr (h s hs)

variable {n : ℕ} {start : Option ℕ}

theorem holds_chainRounds {seen : List ℕ} {Q : List Folder → Tree → Prop}
    (h : ∀ chain, loadFolderChainFrom t.folders scope n seen start = .ok chain → Q chain t) :
    (loadFolderChainRounds scope n seen start).Holds Q t := by
  induction n generalizing seen start Q with
  | zero =>
    cases start with
    | none => exact h [] rfl
    | some id => trivial
  | succ n ih =>
    cases start with
    | none => exact h [] rfl
    | some id =>
      unfold loadFolderChainRounds
      split_ifs with hseen
      · trivial
      · rw [Tx.holds_bind, holds_findFolder]
        intro f hf
        rw [Tx.holds_bind, Tx.holds_check]
        intro u hu
        rw [Tx.holds_bind]
        refine ih fun rest hrest => h (f :: rest) ?_
        simp only [loadFolderChainFrom, if_neg hseen]
        rw [findFolderById_ok.mpr hf]
        show (ensureActiveFolderScope f scope >>= _) = _
        rw [hu]
        show (loadFolderChainFrom t.folders scope n (id :: seen) f.parentId >>= _) = _
        rw [hrest]
        rfl

theorem holds_chain {Q : List Folder → Tree → Prop}
    (h : ∀ chain, loadFolderChainInScope t.folders scope start = .ok chain → Q chain t) :
    (loadFolderChain scope start).Holds Q t := holds_chainRounds h

theorem before_chainRounds {seen : List ℕ} {P : List Folder → Prop}
    {Q : List Folder → Tree → Prop} (h : ∀ chain, P chain) :
    (loadFolderChainRounds scope n seen start).Before I P Q := by
  induction n generalizing seen start P Q with
  | zero =>
    cases start with
    | none => exact h []
    | some id => trivial
  | succ n ih =>
    cases start with
    | none => exact h []
    | some id =>
      unfold loadFolderChainRounds
      split_ifs with hseen
      · trivial
      · refine Tx.before_bind (Tx.before_query fun s f _ => ?_)
        refine Tx.before_bind (Tx.before_check fun u _ => ?_)
        exact Tx.before_bind (ih fun rest => h (f :: rest))

theorem before_chain {P : List Folder → Prop} {Q : List Folder → Tree → Prop}
    (h : ∀ chain, P chain) : (loadFolderChain scope start).Before I P Q :=
  fun _ => before_chainRounds h

variable {ids : List ℕ}

theorem holds_lockFolderIds (h : Q () t) : (lockFolderIdsInOrder ids).Holds Q t := by
  have hloop : ∀ id ∈ ids.dedup, ((lockFolder id >>= fun _ => pure ()) : Txn Unit).Holds
      (fun _ t' => t' = t ∧ True) t := by
    intro id _
    rw [Tx.holds_bind, holds_lockFolder]
    exact fun _ _ => ⟨rfl, trivial⟩
  refine (Tx.holds_forM hloop).mono ?_
  rintro - t' ⟨rfl, -⟩
  exact h

theorem before_lockFolderIds (h : P ()) : (lockFolderIdsInOrder ids).Before I P Q := by
  refine Tx.before_forM (fun id _ P Q hP => ?_) h
  exact Tx.before_bind (Tx.before_query fun _ _ _ => hP)

theorem holds_collectRounds {limits : Option TraversalLimits} {depth : ℕ} {files : List File}
    {frontier : List ℕ} {Q : List File × List ℕ → Tree → Prop}
    (h : ∀ r, collectLevels t ws true limits n files ids frontier depth = .ok r → Q r t) :
    (collectLevelRounds ws limits n files ids frontier depth).Holds Q t := by
  induction n generalizing files ids frontier depth Q with
  | zero => trivial
  | succ n ih =>
    simp only [collectLevelRounds]
    simp only [collectLevels] at h
    split_ifs with hlevel
    · rw [if_pos hlevel] at h
      exact h _ rfl
    · rw [if_neg hlevel] at h
      rw [Tx.holds_bind, Tx.holds_check]
      intro _ h1
      rw [Tx.holds_bind, Tx.holds_check]
      intro _ h2
      rw [Tx.holds_bind, Tx.holds_query]
      intro found hfound
      obtain rfl : _ = found := Except.ok.inj hfound
      rw [Tx.holds_bind, Tx.holds_check]
      intro _ h3
      rw [Tx.holds_bind, Tx.holds_query]
      intro next hnext
      obtain rfl : _ = next := Except.ok.inj hnext
      refine ih fun r hr => h r ?_
      exact bind_ok_iff.mpr ⟨_, h1, bind_ok_iff.mpr ⟨_, h2, bind_ok_iff.mpr ⟨_, h3, hr⟩⟩⟩

theorem holds_collect {limits : Option TraversalLimits} {Q : List File × List ℕ → Tree → Prop}
    (h : ∀ r, collectFolderTreeInScope t ws id true limits = .ok r → Q r t) :
    (collectFolderTree ws id limits).Holds Q t := holds_collectRounds h

end Parts

/-! ### Every text keeps the forest -/

section Guards

variable {w : WorkspaceResourceScope} {scope : WorkspaceStorageScope} {t : Tree} {id : ℕ}

/-- The folders of the workspace are a forest. -/
def Forested (w : WorkspaceResourceScope) (t : Tree) : Prop := LiveForest w t.folders

theorem updateFolder_forested {current : Folder} {name : Option String} {parentId : NullablePatch ℕ}
    {chain : List Folder} (h : Forested scope.resource t) (hget : t.folders.get id = some current)
    (hchain : loadFolderChainInScope t.folders scope (parentId.apply current.parentId) = .ok chain)
    (hout : id ∉ chain.map Folder.id) : Forested scope.resource (updateFolder id name parentId t) := by
  have hrow : ∀ r ∈ t.folders.rows, decide (r.id = id) = true → r = current := by
    intro r hr hid
    have hr := Table.get_of_mem hr
    rw [of_decide_eq_true hid] at hr
    exact some.inj (hr.symm.trans hget)
  refine LiveForest.reparent h ?_ (fun k hk _ _ _ _ => (chain_target hchain k hk).1) ?_
  · intro r hr hid
    obtain rfl := hrow r hr hid
    exact ⟨rfl, rfl, rfl⟩
  · intro k hk r hr hid
    rw [of_decide_eq_true hid]
    exact (chain_target hchain k hk).2 id hout

theorem updateInScope_guards (normalizeName : String → String) (name : Option String)
    (parentId : NullablePatch ℕ) (hscope : scope.resource = w) :
    (updateInScope w normalizeName scope id name parentId).Guards (Forested w) := by
  subst hscope
  unfold Tx.Guards updateInScope
  split_ifs
  · trivial
  refine Tx.before_bind (Tx.before_query fun s preview hpreview => ?_)
  refine Tx.before_bind (Tx.before_check fun u hactive => ?_)
  refine Tx.before_bind (before_chain fun initialChain => ?_)
  refine Tx.before_bind (before_lockFolderIds ?_)
  obtain ⟨hws, -⟩ := ensureActiveFolderScope_ok.mp hactive
  refine Tx.before_bind (before_enforceFolder hws fun t ht current hcurrent => ?_)
  -- from here on the transaction holds the lock, and `t` is what is committed
  have hid : preview.id = id := Table.key_of_get (findFolderById_ok.mp hpreview)
  rw [hid] at hcurrent
  rw [Tx.holds_bind, Tx.holds_check]
  intro _ _
  rw [Tx.holds_bind]
  refine holds_chain fun chain hchain => ?_
  rw [Tx.holds_bind]
  refine holds_membershipsOfMove ?_
  split_ifs with hin
  · trivial
  rw [Tx.holds_bind, Tx.holds_query]
  intro existing _
  split_ifs
  · trivial
  · exact ht
  · rw [Tx.holds_bind, Tx.holds_mayRefuse, Tx.holds_update]
    exact updateFolder_forested ht hcurrent hchain hin

/-! #### Batch moves -/

/-- What `revalidate_batch_folder_move` has made sure of. -/
def Revalidated (scope : WorkspaceStorageScope) (folderIds : List ℕ) (target : Option ℕ) (t : Tree) :
    Prop :=
  folderIds = [] ∨ ∃ chain, loadFolderChainInScope t.folders scope target = .ok chain ∧
    ∀ id ∈ folderIds, id ∉ chain.map Folder.id

theorem holds_revalidate {folderIds : List ℕ} {target : Option ℕ} :
    (revalidateBatchFolderMove w scope folderIds target).Holds
      (fun _ t' => t' = t ∧ Revalidated scope folderIds target t) t := by
  cases folderIds with
  | nil => exact ⟨rfl, .inl rfl⟩
  | cons first others =>
    unfold revalidateBatchFolderMove
    rw [Tx.holds_bind, holds_findFolder]
    intro snapshot _
    rw [Tx.holds_bind, Tx.holds_check]
    intro _ _
    rw [Tx.holds_bind, Tx.holds_check]
    intro ws _
    rw [Tx.holds_bind, holds_lockWorkspace, Tx.holds_bind]
    refine holds_chain fun initialChain _ => ?_
    rw [Tx.holds_bind]
    refine holds_lockFolderIds ?_
    rw [Tx.holds_bind]
    refine holds_chain fun chain hchain => ?_
    refine (Tx.holds_forM (F := fun id => id ∉ chain.map Folder.id) fun id _ => ?_).mono ?_
    · rw [Tx.holds_bind, holds_lockFolder]
      intro folder hfolder
      rw [Tx.holds_bind, Tx.holds_check]
      intro _ _
      rw [Tx.holds_bind]
      refine holds_enforceFolder fun current _ => ?_
      split_ifs with hin
      · trivial
      · exact ⟨rfl, hin⟩
    · rintro - t' ⟨rfl, hout⟩
      exact ⟨rfl, .inr ⟨chain, hchain, hout⟩⟩

variable {fileIds : List ℕ}

theorem moveMany_forested {folderIds : List ℕ} {target : Option ℕ}
    (h : Forested scope.resource t) (hre : Revalidated scope folderIds target t) :
    Forested scope.resource (moveMany fileIds folderIds target t) := by
  rcases hre with rfl | ⟨chain, hchain, hout⟩
  · -- no folder moves
    have hnone : ∀ r ∈ t.folders.rows, decide (r.id ∈ ([] : List ℕ)) = true →
        ({ r with parentId := target } : Folder).parentId = none ∧
          ({ r with parentId := target } : Folder).workspace = r.workspace ∧
          ({ r with parentId := target } : Folder).deletedAt = r.deletedAt := by simp
    exact LiveForest.reparent h hnone (by simp) (by simp)
  · refine LiveForest.reparent h (fun r _ _ => ⟨rfl, rfl, rfl⟩) (fun k hk _ _ _ _ => (chain_target hchain k hk).1) ?_
    intro k hk r hr hid
    exact (chain_target hchain k hk).2 r.id (hout r.id (of_decide_eq_true hid))

theorem before_memberships {I : Tree → Prop} {parents : List (Option ℕ)} {P : Unit → Prop}
    {Q : Unit → Tree → Prop} (hne : parents ≠ []) (h : ∀ s, I s → Q () s) :
    (parents.forM fun p => enforceCollectionMembershipMutationOn w w p).Before I P Q := by
  cases parents with
  | nil => exact absurd rfl hne
  | cons p ps =>
    refine Tx.before_bind (before_membership fun s hs => ?_)
    refine (Tx.holds_forM (F := fun _ => True) fun q _ => holds_membership ⟨rfl, trivial⟩).mono ?_
    rintro - s' ⟨rfl, -⟩
    exact h s' hs

theorem batchMoveInScope_guards (files : List File) (folders : List Folder) (target : Option ℕ)
    (hscope : scope.resource = w) :
    (batchMoveInScope w scope files folders target).Guards (Forested w) := by
  subst hscope
  have htarget : ∀ {P : Unit → Prop} {Q : Unit → Tree → Prop}, P () →
      (lockTargetFolder scope target).Before (Forested scope.resource) P Q := by
    intro P Q hP
    cases target with
    | none => exact hP
    | some k => exact Tx.before_bind (Tx.before_query fun _ _ _ => Tx.before_check fun _ _ => hP)
  refine Tx.before_bind (htarget ?_)
  have hne : (target :: (files.map File.folderId ++ folders.map Folder.parentId)).dedup ≠ [] := by
    have hmem : target ∈ (target :: (files.map File.folderId ++ folders.map Folder.parentId)).dedup := by
      simp
    exact List.ne_nil_of_mem hmem
  refine Tx.before_bind (before_memberships hne fun t ht => ?_)
  -- from here on the transaction holds the lock, and `t` is what is committed
  rw [Tx.holds_bind]
  have hfiles : ∀ f ∈ files, (enforceFileMutationOn scope.resource f >>= fun current =>
      Tx.check (ensureActiveFileScope current scope)).Holds (fun _ t' => t' = t ∧ True) t := by
    intro f _
    rw [Tx.holds_bind]
    refine holds_enforceFile fun current _ => ?_
    rw [Tx.holds_check]
    exact fun _ _ => ⟨rfl, trivial⟩
  refine (Tx.holds_forM hfiles).mono ?_
  rintro - t' ⟨rfl, -⟩
  rw [Tx.holds_bind]
  refine (holds_revalidate).mono ?_
  rintro - t'' ⟨rfl, hre⟩
  rw [Tx.holds_bind, Tx.holds_mayRefuse, Tx.holds_update]
  exact moveMany_forested ht hre

/-! #### Restores -/

theorem parentRestoreTargetUnavailable_false {parent : Option Folder}
    (h : parentRestoreTargetUnavailable parent scope = false) :
    ∃ g, parent = some g ∧ g.ActiveIn scope.resource := by
  unfold parentRestoreTargetUnavailable at h
  cases parent with
  | none => simp at h
  | some g =>
    cases hscope : ensureFolderResourceScope g scope.resource with
    | error e => simp [hscope] at h
    | ok u =>
      refine ⟨g, rfl, ensureFolderResourceScope_ok.mp hscope, ?_⟩
      simpa [hscope] using h

/-- The row of a folder after a restore. -/
def restoredRow (id : ℕ) (restoreToRoot : Bool) (ids : List ℕ) (f : Folder) : Folder :=
  { f with
    deletedAt := if f.id ∈ ids then none else f.deletedAt
    parentId := if f.id = id ∧ restoreToRoot = true then none else f.parentId }

theorem get_restored {restoreToRoot : Bool} {ids : List ℕ} (hid : id ∈ ids) (k : ℕ) :
    (restoreMany fileIds (ids.filter (· ≠ id)) (restoreRoot id restoreToRoot t)).folders.get k =
      (t.folders.get k).map (restoredRow id restoreToRoot ids) := by
  simp only [restoreMany, restoreRoot]
  rw [SerialTable.get_updateRows, SerialTable.get_updateRows, map_map]
  congr 1
  funext f
  by_cases hf : f.id = id
  · subst hf
    cases restoreToRoot <;> simp [restoredRow, hid]
  · by_cases hmem : f.id ∈ ids
    all_goals simp [restoredRow, hf, hmem]

theorem restored_forested {folder : Folder} {restoreToRoot : Bool} {files : List File} {ids : List ℕ}
    (h : Forested w t) (hget : t.folders.get id = some folder) (hws : folder.workspace = some w)
    (htree : Frontier t w true id files ids [])
    (hparent : restoreToRoot = false → ∀ p, folder.parentId = some p → ∃ g, t.folders.get p = some g ∧ g.ActiveIn w) :
    Forested w (restoreMany fileIds (ids.filter (· ≠ id)) (restoreRoot id restoreToRoot t)) := by
  have hid : id ∈ ids := by simpa using htree.top
  have hrow : ∀ k, (restoreMany fileIds (ids.filter (· ≠ id)) (restoreRoot id restoreToRoot t)).folders.get k =
        (t.folders.get k).map (restoredRow id restoreToRoot ids) := get_restored hid
  generalize hout : restoreMany fileIds (ids.filter (· ≠ id)) (restoreRoot id restoreToRoot t) = t' at hrow
  -- whatever was not in the trash is not in the trash, and neither is what was found below `id`
  have hstays : ∀ k g, t.folders.get k = some g → g.ActiveIn w → ∃ g', t'.folders.get k = some g' ∧ g'.ActiveIn w := by
    intro k g hg hact
    refine ⟨restoredRow id restoreToRoot ids g, by rw [hrow, hg]; rfl, hact.1, ?_⟩
    simp [restoredRow, hact.2]
  have hback : ∀ k g, t.folders.get k = some g → g.workspace = some w → k ∈ ids →
      ∃ g', t'.folders.get k = some g' ∧ g'.ActiveIn w := by
    intro k g hg hgw hk
    refine ⟨restoredRow id restoreToRoot ids g, by rw [hrow, hg]; rfl, hgw, ?_⟩
    simp [restoredRow, Table.key_of_get hg, hk]
  constructor
  · -- no edge is new
    have hsub : ∀ i p, parentOf t'.folders i = some p → parentOf t.folders i = some p := by
      intro i p hp
      obtain ⟨r', hr', hp⟩ := bind_eq_some_iff.mp hp
      rw [hrow] at hr'
      obtain ⟨r, hr, rfl⟩ := map_eq_some_iff.mp hr'
      simp only [restoredRow] at hp
      split_ifs at hp
      exact (Forest.parentIn_of_lookup hr).trans hp
    exact fun i hi => h.acyclic i (hi.mono hsub)
  · intro f' hf' hact p hp
    obtain ⟨r, hr, rfl⟩ : ∃ r, t.folders.get f'.id = some r ∧ restoredRow id restoreToRoot ids r = f' := by
      have hget' := Table.get_of_mem hf'
      rw [hrow] at hget'
      exact map_eq_some_iff.mp hget'
    simp only [restoredRow] at hp
    split_ifs at hp with hroot
    by_cases hmem : r.id ∈ ids
    · rcases htree.origin r.id (.inl hmem) with hrid | ⟨x, q, hx, -, hq, hqids⟩
      · -- the root of the subtree: its parent was looked at
        obtain rfl : folder = r := some.inj (hget.symm.trans (hrid ▸ hr))
        have hflag : restoreToRoot = false := by
          cases restoreToRoot with
          | false => rfl
          | true => exact absurd ⟨hrid, rfl⟩ hroot
        obtain ⟨g, hg, hgact⟩ := hparent hflag p hp
        exact hstays p g hg hgact
      · -- a folder below it: its parent was found too
        obtain rfl : x = r := some.inj (hx.symm.trans hr)
        obtain rfl : q = p := some.inj (hq.symm.trans hp)
        rcases htree.origin q (.inl hqids) with rfl | ⟨y, _, hy, htaken, -, -⟩
        · exact hback q folder hget hws hqids
        · exact hback q y hy htaken.1 hqids
    · have hract : r.ActiveIn w := by
        refine ⟨hact.1, ?_⟩
        simpa [restoredRow, hmem] using hact.2
      obtain ⟨g, hg, hgact⟩ := h.parents r (Table.mem_of_get hr) hract p hp
      exact hstays p g hg hgact

theorem restoreFolderInScope_guards (limits : Option TraversalLimits) (hscope : scope.resource = w) :
    (restoreFolderInScope w scope id limits).Guards (Forested w) := by
  subst hscope
  -- the lock comes first
  refine Tx.before_bind (before_lockWorkspace rfl fun t ht => ?_)
  rw [Tx.holds_bind, Tx.holds_mayRefuse, Tx.holds_bind, holds_findFolder]
  intro folder hfolder
  rw [Tx.holds_bind, Tx.holds_check]
  intro _ hws
  split_ifs
  · trivial
  rw [Tx.holds_bind]
  refine holds_collect fun r hr => ?_
  obtain ⟨files, ids⟩ := r
  have htree := collectFolderTreeInScope_ok hr
  have hws := ensureFolderResourceScope_ok.mp hws
  show Tx.Holds (hasToGoToRoot scope folder.parentId >>= _) _ t
  have hflag : (hasToGoToRoot scope folder.parentId).Holds (fun toRoot t' => t' = t ∧
      (toRoot = false → ∀ p, folder.parentId = some p →
        ∃ g, t.folders.get p = some g ∧ g.ActiveIn scope.resource)) t := by
    unfold hasToGoToRoot
    cases hp : folder.parentId with
    | none => exact ⟨rfl, by simp⟩
    | some p =>
      rw [Tx.holds_query]
      intro toRoot htoRoot
      refine ⟨rfl, fun hfalse q hq => ?_⟩
      obtain rfl : p = q := some.inj hq
      rw [← Except.ok.inj htoRoot] at hfalse
      exact parentRestoreTargetUnavailable_false hfalse
  rw [Tx.holds_bind]
  refine hflag.mono ?_
  rintro toRoot t' ⟨rfl, hparent⟩
  rw [Tx.holds_bind, Tx.holds_mayRefuse, Tx.holds_bind, Tx.holds_update, Tx.holds_bind,
    Tx.holds_mayRefuse, Tx.holds_update]
  exact restored_forested ht hfolder hws htree hparent

end Guards

/-- **The folder graph stays a forest.** Whatever moves, batch moves and restores run at the same time
in a workspace, and however their statements interleave: if no folder lay below itself and every folder
out of the trash lay at the root or in a folder of the workspace out of the trash, then so it is in
every committed state. -/
theorem forest_kept (w : WorkspaceResourceScope) (normalizeName : String → String) (t₀ : Tree)
    (h₀ : LiveForest w t₀.folders) (c : Interleave.Config (Shared Tree) (Conn Tree AsterError))
    (h : Interleave.Reach (system (Request.text (w := w) normalizeName)) Interleave.free
      ⟨{ db := t₀ }, fun _ => .idle⟩ c) :
    LiveForest w c.shared.db.folders := by
  have htext : ∀ r : Request w, (r.text normalizeName).Guards (Forested w) := by
    intro r
    obtain ⟨scope, hscope, op⟩ := r
    cases op with
    | update id name parentId => exact updateInScope_guards normalizeName name parentId hscope
    | batchMove files folders target => exact batchMoveInScope_guards files folders target hscope
    | restore id limits => exact restoreFolderInScope_guards limits hscope
  have hstart : Forested w ({ db := t₀ } : Shared Tree).db := h₀
  exact committed_invariant htext hstart (fun _ => rfl) h

/-- Two folders at the root of a workspace, and a third one in the first. -/
def twoRoots : Tree where
  folders :=
    { rows := [⟨1, some 7, none, none, "a", none⟩, ⟨2, some 7, none, none, "b", none⟩,
        ⟨3, some 7, none, some 1, "c", none⟩]
      unique := by decide
      next := 4
      below := by decide }
  files := .empty

/-- `a` under `b`, and `b` under `c`, which lies in `a`. -/
def crossedMoves : List (ℕ × Move (Request (.personal 7))) :=
  let move (id parent : ℕ) : Move (Request (.personal 7)) := .start ⟨.personal 7, rfl, .update id none (.value parent)⟩
  [(0, move 1 2), (1, move 2 3)] ++ List.replicate 5 (0, .next true) ++ List.replicate 7 (1, .next true) ++
    List.replicate 14 (0, .next true) ++ List.replicate 13 (1, .next true)

/-- Both moves have passed their first checks before either is under the lock; the one that comes second
is refused. -/
theorem forest_kept_crossedMoves :
    ∃ c, (system (Request.text id)).run Interleave.free ⟨{ db := twoRoots }, fun _ => .idle⟩ crossedMoves = some c ∧
      c.shared.db.folders.rows.map Folder.parentId = [some 2, none, some 1] ∧
      LiveForest (.personal 7) c.shared.db.folders := by
  have hrun : ((system (Request.text id)).run Interleave.free ⟨{ db := twoRoots }, fun _ => .idle⟩ crossedMoves).map
        (fun c => c.shared.db.folders.rows.map Folder.parentId) = some [some 2, none, some 1] := by
    decide
  obtain ⟨c, hc, hrows⟩ := map_eq_some_iff.mp hrun
  have hstart : LiveForest (.personal 7) twoRoots.folders := .of_rows (by decide) (by decide)
  exact ⟨c, hc, hrows, forest_kept (.personal 7) id twoRoots hstart c (Interleave.run_reach hc)⟩

end AsterDrive.Files.Concurrent
