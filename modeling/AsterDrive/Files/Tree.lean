import AsterDrive.Lib.Forest
import AsterDrive.Workspace.FileRecord

/-!
# Tree — the folders and files of the workspaces

`folders` rows point at their parent, `files` rows at the folder they lie in; a row without such a
pointer lies at the root of its workspace. Rows in the trash keep their pointers. This module has the
queries that walk the tree (the chain of a folder, its ancestors, its subtree) and the checks that a
row belongs to a workspace and is not in the trash.

`Tree.WellFormed` is what the writers are to keep: no folder lies below itself, and whatever is not
in the trash lies at a root or in a folder of its own workspace that is not in the trash.
-/

namespace AsterDrive.Files

open Db

/-- `folder::Model`: the columns that the tree reads. -/
structure Folder where
  id : ℕ
  ownerUserId : Option ℕ
  teamId : Option ℕ
  parentId : Option ℕ
  name : String
  deletedAt : Option ℕ := none
  deriving DecidableEq

/-- `LockWorkspace::from_folder`: the team of a folder, and without one its owner. -/
def Folder.workspace (f : Folder) : Option WorkspaceResourceScope :=
  match f.teamId with
  | some teamId => some (.team teamId)
  | none => f.ownerUserId.map .personal

abbrev Folders := SerialTable Folder.id

end Files

/-- The two tables of the tree. -/
structure Tree where
  folders : Files.Folders
  files : Db.Files

namespace Files

open Db

def recordNotFound (message : String) : AsterError := .recordNotFound { message }

def folderNotFound (message : String) : AsterError := .folderNotFound { message }

def validationError (message : String) : AsterError := .validationError { message }

def resourceLocked (message : String) : AsterError := .resourceLocked { message }

/-- `folder_repo::find_by_id`. -/
def findFolderById (t : Folders) (id : ℕ) : Except AsterError Folder :=
  match t.get id with
  | some f => .ok f
  | none => .error (recordNotFound ("folder #" ++ toString id))

/-- `folder_repo::lock_by_id`: the row lock is taken, or waited for. -/
def lockFolderById (t : Folders) (id : ℕ) : Except AsterError Folder :=
  match t.get id with
  | some f => .ok f
  | none => .error (folderNotFound ("folder #" ++ toString id))

/-- `file_repo::find_by_id` and `lock_by_id`. -/
def findFileById (t : Db.Files) (id : ℕ) : Except AsterError File :=
  match t.get id with
  | some f => .ok f
  | none => .error (fileNotFound ("file #" ++ toString id))

/-! ### Whose folder it is -/

/-- `LockWorkspace::from_folder`. -/
def workspaceOfFolder (f : Folder) : Except AsterError WorkspaceResourceScope :=
  match f.workspace with
  | some w => .ok w
  | none => .error (internalError ("folder #" ++ toString f.id ++ " has no workspace identity"))

/-- `LockWorkspace::from_file`. -/
def workspaceOfFile (f : File) : Except AsterError WorkspaceResourceScope :=
  match f.workspace with
  | some w => .ok w
  | none => .error (internalError ("file #" ++ toString f.id ++ " has no workspace identity"))

/-- `ensure_folder_resource_scope`. -/
def ensureFolderResourceScope (folder : Folder) : WorkspaceResourceScope → Except AsterError Unit
  | .personal userId =>
    if folder.teamId.isSome then
      .error (authForbidden "folder belongs to a team workspace" (some .workspaceScopeDenied))
    else match folder.ownerUserId with
      | none => .error (authForbidden "folder has no personal owner" (some .workspaceScopeDenied))
      | some owner => if owner = userId then .ok () else .error (authForbidden "not your folder")
  | .team teamId =>
    if folder.teamId = some teamId then .ok ()
    else .error (authForbidden "folder is outside team workspace" (some .workspaceScopeDenied))

/-- `ensure_active_folder_scope`; `ensure_folder_model_in_scope` is the same check. -/
def ensureActiveFolderScope (folder : Folder) (scope : WorkspaceStorageScope) :
    Except AsterError Unit := do
  ensureFolderResourceScope folder scope.resource
  if folder.deletedAt.isSome then
    .error (folderNotFound ("Folder #" ++ toString folder.id ++ " is in trash"))
  else .ok ()

/-- `folder_matches_scope`, and the scope condition of the folder queries. -/
def folderMatchesScope (folder : Folder) : WorkspaceResourceScope → Bool
  | .personal userId => folder.teamId = none ∧ folder.ownerUserId = some userId
  | .team teamId => folder.teamId = some teamId

/-- The scope condition of the file queries. -/
def fileMatchesScope (file : File) : WorkspaceResourceScope → Bool
  | .personal userId => file.teamId = none ∧ file.ownerUserId = some userId
  | .team teamId => file.teamId = some teamId

section

variable {folder : Folder} {file : File} {scope : WorkspaceResourceScope} {s : WorkspaceStorageScope}

theorem folderMatchesScope_iff : folderMatchesScope folder scope ↔ folder.workspace = some scope := by
  unfold folderMatchesScope Folder.workspace
  cases scope with
  | personal userId | team teamId =>
    cases hteam : folder.teamId with
    | none => cases howner : folder.ownerUserId <;> simp
    | some t => simp

theorem fileMatchesScope_iff : fileMatchesScope file scope ↔ file.workspace = some scope := by
  unfold fileMatchesScope File.workspace
  cases scope with
  | personal userId | team teamId =>
    cases hteam : file.teamId with
    | none => cases howner : file.ownerUserId <;> simp
    | some t => simp

theorem ensureFolderResourceScope_ok :
    ensureFolderResourceScope folder scope = .ok () ↔ folder.workspace = some scope := by
  unfold ensureFolderResourceScope Folder.workspace
  cases scope with
  | personal userId =>
    cases hteam : folder.teamId with
    | none =>
      cases howner : folder.ownerUserId with
      | none => simp
      | some owner =>
        by_cases h : owner = userId
        all_goals simp [h]
    | some t => simp
  | team teamId =>
    cases hteam : folder.teamId with
    | none => cases howner : folder.ownerUserId <;> simp
    | some t =>
      by_cases h : t = teamId
      all_goals simp [h]

theorem ensureActiveFolderScope_ok : ensureActiveFolderScope folder s = .ok () ↔
      folder.workspace = some s.resource ∧ folder.deletedAt = none := by
  unfold ensureActiveFolderScope
  rw [bind_ok_iff]
  constructor
  · rintro ⟨⟨⟩, hscope, hlive⟩
    refine ⟨(ensureFolderResourceScope_ok).mp hscope, ?_⟩
    cases hdel : folder.deletedAt with
    | none => rfl
    | some d => simp [hdel] at hlive
  · rintro ⟨hscope, hlive⟩
    exact ⟨(), (ensureFolderResourceScope_ok).mpr hscope, by simp [hlive]⟩

theorem workspaceOfFolder_ok : workspaceOfFolder folder = .ok scope ↔ folder.workspace = some scope := by
  unfold workspaceOfFolder
  cases folder.workspace <;> simp

theorem workspaceOfFile_ok : workspaceOfFile file = .ok scope ↔ file.workspace = some scope := by
  unfold workspaceOfFile
  cases file.workspace <;> simp

theorem findFolderById_ok {t : Folders} {id : ℕ} : findFolderById t id = .ok folder ↔ t.get id = some folder := by
  unfold findFolderById
  cases t.get id <;> simp

theorem lockFolderById_ok {t : Folders} {id : ℕ} : lockFolderById t id = .ok folder ↔ t.get id = some folder := by
  unfold lockFolderById
  cases t.get id <;> simp

theorem findFileById_ok {t : Db.Files} {id : ℕ} : findFileById t id = .ok file ↔ t.get id = some file := by
  unfold findFileById
  cases t.get id <;> simp

end

/-! ### Requests and names -/

/-- `NullablePatch`: a column that a request leaves alone, clears or sets. -/
inductive NullablePatch (α : Type)
  | absent
  | null
  | value (a : α)
  deriving DecidableEq

/-- The column after the request. -/
def NullablePatch.apply {α : Type} (old : Option α) : NullablePatch α → Option α
  | absent => old
  | null => none
  | value a => some a

/-- `folder_repo::duplicate_name_error`. -/
def duplicateFolderNameError (name : String) : AsterError :=
  .validationError
    { message := "folder '" ++ name ++ "' already exists in this location"
      apiCode := some .folderNameConflict }

/-- `find_folder_by_name_in_scope`: the exact name, then the normalized one. -/
def findFolderByNameInScope (normalizeName : String → String) (t : Folders)
    (scope : WorkspaceResourceScope) (parentId : Option ℕ) (name : String) : Option Folder :=
  let here := t.rows.filter fun f =>
    folderMatchesScope f scope && f.deletedAt.isNone && decide (f.parentId = parentId)
  (here.find? fun f => f.name = name).or (here.find? fun f => normalizeName f.name = normalizeName name)

/-- `find_by_name_in_folder_in_scope`: the file of that name in a folder, in the same two steps. -/
def findFileByNameInScope (normalizeName : String → String) (t : Db.Files)
    (scope : WorkspaceResourceScope) (folderId : Option ℕ) (name : String) : Option File :=
  let here := t.rows.filter fun f =>
    fileMatchesScope f scope && f.deletedAt.isNone && decide (f.folderId = folderId)
  (here.find? fun f => f.name = name).or (here.find? fun f => normalizeName f.name = normalizeName name)

/-! ### The chain of a folder -/

/-- The loop of `load_folder_chain_in_scope`: `seen` are the ids met so far. -/
def loadFolderChainFrom (t : Folders) (scope : WorkspaceStorageScope) :
    ℕ → List ℕ → Option ℕ → Except AsterError (List Folder)
  | _, _, none => .ok []
  | 0, _, some _ => .error (internalError "folder chain is longer than the table")
  | n + 1, seen, some id =>
    if id ∈ seen then .error (validationError "folder hierarchy contains a cycle")
    else do
      let folder ← findFolderById t id
      ensureActiveFolderScope folder scope
      let rest ← loadFolderChainFrom t scope n (id :: seen) folder.parentId
      pure (folder :: rest)

/-- `load_folder_chain_in_scope`: a folder and its ancestors, all of them in the workspace and none
in the trash. Every round adds an id to `seen`, so there are at most as many as there are rows. -/
def loadFolderChainInScope (t : Folders) (scope : WorkspaceStorageScope) (start : Option ℕ) :
    Except AsterError (List Folder) :=
  loadFolderChainFrom t scope (t.rows.length + 1) [] start

/-- Not in the trash, and of this workspace. -/
def Folder.ActiveIn (f : Folder) (scope : WorkspaceResourceScope) : Prop :=
  f.workspace = some scope ∧ f.deletedAt = none

def File.ActiveIn (f : File) (scope : WorkspaceResourceScope) : Prop := f.workspace = some scope ∧ f.deletedAt = none

instance (f : Folder) (scope : WorkspaceResourceScope) : Decidable (f.ActiveIn scope) :=
  inferInstanceAs (Decidable (_ ∧ _))

/-- The folder above a folder. -/
def parentOf (t : Folders) : ℕ → Option ℕ := Forest.parentIn t.get Folder.parentId

section Chain

variable {t : Folders} {scope : WorkspaceStorageScope} {chain : List Folder} {start : Option ℕ}

theorem loadFolderChainFrom_ok {n : ℕ} {seen : List ℕ} (h : loadFolderChainFrom t scope n seen start = .ok chain) :
    Lineage.Follows t.get Folder.parentId start chain ∧ ∀ f ∈ chain, f.ActiveIn scope.resource := by
  induction n generalizing seen start chain with
  | zero =>
    cases start with
    | none =>
      obtain rfl : [] = chain := by simpa [loadFolderChainFrom] using h
      exact ⟨.stop, by simp⟩
    | some id => simp [loadFolderChainFrom] at h
  | succ n ih =>
    cases start with
    | none =>
      obtain rfl : [] = chain := by simpa [loadFolderChainFrom] using h
      exact ⟨.stop, by simp⟩
    | some id =>
      simp only [loadFolderChainFrom] at h
      split_ifs at h with hseen
      obtain ⟨folder, hfolder, h⟩ := bind_ok h
      obtain ⟨⟨⟩, hactive, h⟩ := bind_ok h
      obtain ⟨rest, hrest, h⟩ := bind_ok h
      cases h
      obtain ⟨hfollows, hall⟩ := ih hrest
      refine ⟨.visit ((findFolderById_ok).mp hfolder) hfollows, ?_⟩
      intro f hf
      rcases List.mem_cons.mp hf with rfl | hf
      · exact (ensureActiveFolderScope_ok).mp hactive
      · exact hall f hf

theorem loadFolderChainInScope_ok {k : ℕ} (h : loadFolderChainInScope t scope (some k) = .ok chain) :
    (∀ j, Forest.AtOrAbove (parentOf t) j k → ∃ f ∈ chain, t.get j = some f) ∧
      (∀ f ∈ chain, Forest.AtOrAbove (parentOf t) f.id k) ∧ ∀ f ∈ chain, f.ActiveIn scope.resource := by
  obtain ⟨hfollows, hall⟩ := loadFolderChainFrom_ok h
  obtain ⟨hmem, hback⟩ := Forest.mem_follows hfollows
  refine ⟨hmem, fun f hf => ?_, hall⟩
  obtain ⟨j, hj, hjk⟩ := hback f hf
  rw [Table.key_of_get hj]
  exact hjk

theorem chain_target (h : loadFolderChainInScope t scope start = .ok chain) (k : ℕ) (hk : start = some k) :
    (∃ x, t.get k = some x ∧ x.ActiveIn scope.resource) ∧
      ∀ i, i ∉ chain.map Folder.id → ¬ Forest.AtOrAbove (parentOf t) i k := by
  subst hk
  obtain ⟨hall, -, hactive⟩ := loadFolderChainInScope_ok h
  constructor
  · obtain ⟨x, hx, hget⟩ := hall k .refl
    exact ⟨x, hget, hactive x hx⟩
  · intro i hi habove
    obtain ⟨x, hx, hget⟩ := hall i habove
    exact hi (List.mem_map.mpr ⟨x, hx, Table.key_of_get hget⟩)

theorem loadFolderChainFrom_rounds {n : ℕ} {seen : List ℕ} (hnodup : seen.Nodup)
    (hsub : seen ⊆ t.rows.map Folder.id) (hlen : t.rows.length < n + seen.length) :
    loadFolderChainFrom t scope (n + 1) seen start = loadFolderChainFrom t scope n seen start := by
  have hle : seen.length ≤ t.rows.length := by
    simpa using (hnodup.subperm hsub).length_le
  induction n generalizing seen start with
  | zero => omega
  | succ n ih =>
    cases start with
    | none => rfl
    | some id =>
      rw [loadFolderChainFrom]
      conv_rhs => rw [loadFolderChainFrom]
      split_ifs with hseen
      · rfl
      · cases hid : findFolderById t id with
        | error e => rfl
        | ok folder =>
          have hmem : id ∈ t.rows.map Folder.id := by
            have hget := findFolderById_ok.mp hid
            exact List.mem_map.mpr ⟨folder, Table.mem_of_get hget, Table.key_of_get hget⟩
          have hnodup' : (id :: seen).Nodup := List.nodup_cons.mpr ⟨hseen, hnodup⟩
          have hsub' : id :: seen ⊆ t.rows.map Folder.id := List.cons_subset.mpr ⟨hmem, hsub⟩
          have hle' : (id :: seen).length ≤ t.rows.length := by
            simpa using (hnodup'.subperm hsub').length_le
          have hnext : loadFolderChainFrom t scope (n + 1) (id :: seen) folder.parentId =
              loadFolderChainFrom t scope n (id :: seen) folder.parentId := by
            refine ih hnodup' hsub' ?_ hle'
            simp only [List.length_cons]
            omega
          show (ensureActiveFolderScope folder scope >>= fun _ => _) = _
          rw [hnext]
          rfl

end Chain

/-! ### Ancestors -/

/-- `AncestorScope`: the ancestor queries compare one column, the owner or the team. -/
def inAncestorScope (f : Folder) : WorkspaceResourceScope → Bool
  | .personal userId => f.ownerUserId = some userId
  | .team teamId => f.teamId = some teamId

/-- The rows that the recursive ancestor query joins. -/
def liveFolder (t : Folders) (scope : WorkspaceResourceScope) (id : ℕ) : Option Folder :=
  (t.get id).filter fun f => inAncestorScope f scope && f.deletedAt.isNone

/-- `find_ancestor_models` and `find_team_ancestor_models`: the folder and its ancestors, the topmost
first. -/
def findAncestorModels (t : Folders) (scope : WorkspaceResourceScope) (folderId : ℕ) : List Folder :=
  (Forest.climb (liveFolder t scope) Folder.parentId t.rows.length (some folderId)).reverse

/-! ### Subtrees -/

/-- `FolderTreeTraversalLimits`. -/
structure TraversalLimits where
  maximumResources : ℕ
  maximumFrontier : ℕ
  maximumDepth : ℕ

def folderTreeLimitError : AsterError :=
  .operationResourceLimitExceeded { message := "recursive folder tree exceeds the operation resource budget" }

def folderTreeShapeLimitError : AsterError :=
  .operationResourceLimitExceeded { message := "recursive folder tree exceeds the operation frontier or depth bound" }

def checkFolderTreeFrontierLimits (limits : Option TraversalLimits) (frontier depth : ℕ) :
    Except AsterError Unit :=
  match limits with
  | none => .ok ()
  | some l =>
    if l.maximumDepth < depth ∨ l.maximumFrontier < frontier then .error folderTreeShapeLimitError
    else .ok ()

def checkFolderTreeResourceLimits (limits : Option TraversalLimits) (folders files additional : ℕ) :
    Except AsterError Unit :=
  match limits with
  | none => .ok ()
  | some l =>
    if l.maximumResources < folders + files + additional then .error folderTreeLimitError else .ok ()

/-- `find_all_children_in_parents`, `find_children_in_parents` and `find_team_children_in_parents`. -/
def childrenInParents (t : Folders) (scope : WorkspaceResourceScope) (includeDeleted : Bool)
    (parents : List ℕ) : List ℕ :=
  (t.rows.filter fun f => folderMatchesScope f scope && (includeDeleted || f.deletedAt.isNone) &&
    decide (∃ p ∈ parents, f.parentId = some p)).map Folder.id

/-- `load_level_files`: the pages together are the files of the folders. -/
def levelFiles (t : Db.Files) (scope : WorkspaceResourceScope) (includeDeleted : Bool) (parents : List ℕ) : List File :=
  t.rows.filter fun f => fileMatchesScope f scope && (includeDeleted || f.deletedAt.isNone) &&
    decide (∃ p ∈ parents, f.folderId = some p)

/-- The breadth-first loop of `collect_folder_forest_in_resource_scope`: one round a level. -/
def collectLevels (t : Tree) (scope : WorkspaceResourceScope) (includeDeleted : Bool)
    (limits : Option TraversalLimits) :
    ℕ → List File → List ℕ → List ℕ → ℕ → Except AsterError (List File × List ℕ)
  -- a level adds a folder that was not there, so the rounds do not run out
  | 0, _, _, _, _ => .error (internalError "folder tree is deeper than the table")
  | n + 1, files, folderIds, frontier, depth =>
    let level := frontier.dedup.filter fun id => id ∉ folderIds
    if level = [] then .ok (files, folderIds)
    else do
      checkFolderTreeFrontierLimits limits level.length depth
      checkFolderTreeResourceLimits limits folderIds.length files.length level.length
      let found := levelFiles t.files scope includeDeleted level
      checkFolderTreeResourceLimits limits (folderIds ++ level).length files.length found.length
      collectLevels t scope includeDeleted limits n (files ++ found) (folderIds ++ level)
        (childrenInParents t.folders scope includeDeleted level) (depth + 1)

/-- `collect_folder_tree_in_scope`: the files and the folders of a subtree. -/
def collectFolderTreeInScope (t : Tree) (scope : WorkspaceResourceScope) (folderId : ℕ)
    (includeDeleted : Bool) (limits : Option TraversalLimits) :
    Except AsterError (List File × List ℕ) :=
  collectLevels t scope includeDeleted limits (t.folders.rows.length + 2) [] [] [folderId] 0

/-- `f` is a folder of the workspace that the traversal takes up. -/
def Folder.TakenIn (f : Folder) (scope : WorkspaceResourceScope) (includeDeleted : Bool) : Prop :=
  f.workspace = some scope ∧ (includeDeleted = true ∨ f.deletedAt = none)

def File.TakenIn (f : File) (scope : WorkspaceResourceScope) (includeDeleted : Bool) : Prop :=
  f.workspace = some scope ∧ (includeDeleted = true ∨ f.deletedAt = none)

section Collect

variable {t : Tree} {scope : WorkspaceResourceScope} {incl : Bool} {limits : Option TraversalLimits}
variable {root : ℕ} {files : List File} {ids frontier : List ℕ}

theorem mem_childrenInParents {c : ℕ} {parents : List ℕ} : c ∈ childrenInParents t.folders scope incl parents ↔
      ∃ f p, t.folders.get c = some f ∧ f.TakenIn scope incl ∧ p ∈ parents ∧ f.parentId = some p := by
  simp only [childrenInParents, List.mem_map, List.mem_filter, Bool.and_eq_true, decide_eq_true_eq,
    Bool.or_eq_true, Option.isNone_iff_eq_none, folderMatchesScope_iff]
  constructor
  · rintro ⟨f, ⟨hf, ⟨hscope, hlive⟩, p, hp, hparent⟩, rfl⟩
    exact ⟨f, p, Table.get_of_mem hf, ⟨hscope, hlive⟩, hp, hparent⟩
  · rintro ⟨f, p, hf, ⟨hscope, hlive⟩, hp, hparent⟩
    exact ⟨f, ⟨Table.mem_of_get hf, ⟨hscope, hlive⟩, p, hp, hparent⟩, Table.key_of_get hf⟩

theorem mem_levelFiles {f : File} {parents : List ℕ} : f ∈ levelFiles t.files scope incl parents ↔
      f ∈ t.files.rows ∧ File.TakenIn f scope incl ∧ ∃ p ∈ parents, f.folderId = some p := by
  simp only [levelFiles, List.mem_filter, Bool.and_eq_true, decide_eq_true_eq, Bool.or_eq_true,
    Option.isNone_iff_eq_none, fileMatchesScope_iff]
  constructor
  all_goals
    rintro ⟨hf, hscope, hp⟩
    exact ⟨hf, hscope, hp⟩

/-- What the traversal has found, and what it still has to look at. -/
structure Frontier (t : Tree) (scope : WorkspaceResourceScope) (incl : Bool) (root : ℕ)
    (files : List File) (ids frontier : List ℕ) : Prop where
  top : root ∈ ids ∨ root ∈ frontier
  closed : ∀ f c p, t.folders.get c = some f → f.TakenIn scope incl → f.parentId = some p → p ∈ ids →
    c ∈ ids ∨ c ∈ frontier
  origin : ∀ c, c ∈ ids ∨ c ∈ frontier → c = root ∨
    ∃ f p, t.folders.get c = some f ∧ f.TakenIn scope incl ∧ f.parentId = some p ∧ p ∈ ids
  below : ∀ c, c ∈ ids ∨ c ∈ frontier → Forest.AtOrAbove (parentOf t.folders) root c
  files : ∀ f, f ∈ files ↔ f ∈ t.files.rows ∧ File.TakenIn f scope incl ∧ ∃ p ∈ ids, f.folderId = some p

theorem Frontier.start : Frontier t scope incl root [] [] [root] where
  top := by simp
  closed := by simp
  origin := by simp
  below c hc := by
    obtain rfl : c = root := by simpa using hc
    exact .refl
  files := by simp

theorem Frontier.next (h : Frontier t scope incl root files ids frontier)
    {level : List ℕ} (hlevel : level = frontier.dedup.filter fun id => id ∉ ids) :
    Frontier t scope incl root (files ++ levelFiles t.files scope incl level) (ids ++ level)
      (childrenInParents t.folders scope incl level) := by
  have hmem : ∀ c, c ∈ ids ++ level ↔ c ∈ ids ∨ c ∈ frontier := by
    intro c
    rw [hlevel]
    simp only [List.mem_append, List.mem_filter, List.mem_dedup, decide_eq_true_eq]
    tauto
  constructor
  · exact .inl ((hmem root).mpr h.top)
  · intro f c p hf htaken hp hpids
    rcases List.mem_append.mp hpids with hids | hnew
    · exact .inl ((hmem c).mpr (h.closed f c p hf htaken hp hids))
    · exact .inr ((mem_childrenInParents).mpr ⟨f, p, hf, htaken, hnew, hp⟩)
  · rintro c (hc | hc)
    · rcases h.origin c ((hmem c).mp hc) with rfl | ⟨f, p, hf, htaken, hp, hpids⟩
      · exact .inl rfl
      · exact .inr ⟨f, p, hf, htaken, hp, List.mem_append_left _ hpids⟩
    · obtain ⟨f, p, hf, htaken, hpl, hp⟩ := (mem_childrenInParents).mp hc
      exact .inr ⟨f, p, hf, htaken, hp, List.mem_append_right _ hpl⟩
  · rintro c (hc | hc)
    · exact h.below c ((hmem c).mp hc)
    · obtain ⟨f, p, hf, htaken, hpl, hp⟩ := (mem_childrenInParents).mp hc
      have hroot := h.below p ((hmem p).mp (List.mem_append_right _ hpl))
      exact hroot.trans (.of_above (.of_parent ((Forest.parentIn_of_lookup hf).trans hp)))
  · intro f
    rw [List.mem_append, h.files, mem_levelFiles]
    constructor
    · rintro (⟨hf, htaken, p, hp, hpf⟩ | ⟨hf, htaken, p, hp, hpf⟩)
      · exact ⟨hf, htaken, p, List.mem_append_left _ hp, hpf⟩
      · exact ⟨hf, htaken, p, List.mem_append_right _ hp, hpf⟩
    · rintro ⟨hf, htaken, p, hp, hpf⟩
      rcases List.mem_append.mp hp with hp | hp
      · exact .inl ⟨hf, htaken, p, hp, hpf⟩
      · exact .inr ⟨hf, htaken, p, hp, hpf⟩

theorem collectLevels_ok {n depth : ℕ} {files' : List File} {ids' : List ℕ}
    (h : Frontier t scope incl root files ids frontier)
    (hok : collectLevels t scope incl limits n files ids frontier depth = .ok (files', ids')) :
    Frontier t scope incl root files' ids' [] := by
  induction n generalizing files ids frontier depth with
  | zero => simp [collectLevels] at hok
  | succ n ih =>
    simp only [collectLevels] at hok
    split_ifs at hok with hlevel
    · -- nothing new on this level: what is left of the frontier was found before
      obtain ⟨rfl, rfl⟩ : files = files' ∧ ids = ids' := by simpa using hok
      have hsub : ∀ c, c ∈ ids ∨ c ∈ frontier → c ∈ ids ∨ c ∈ ([] : List ℕ) := by
        rintro c (hc | hc)
        · exact .inl hc
        · by_contra hnot
          have : c ∈ frontier.dedup.filter fun id => id ∉ ids := by
            simp only [List.mem_filter, List.mem_dedup, decide_eq_true_eq]
            exact ⟨hc, fun h => hnot (.inl h)⟩
          rw [hlevel] at this
          cases this
      refine ⟨hsub root h.top, fun f c p hf ht hp hpi => hsub c (h.closed f c p hf ht hp hpi), ?_, ?_, h.files⟩
      · exact fun c hc => h.origin c (hc.imp_right (by simp))
      · exact fun c hc => h.below c (hc.imp_right (by simp))
    · obtain ⟨⟨⟩, _, hok⟩ := bind_ok hok
      obtain ⟨⟨⟩, _, hok⟩ := bind_ok hok
      obtain ⟨⟨⟩, _, hok⟩ := bind_ok hok
      exact ih (h.next rfl) hok

theorem collectFolderTreeInScope_ok (hok : collectFolderTreeInScope t scope root incl limits = .ok (files, ids)) :
    Frontier t scope incl root files ids [] :=
  collectLevels_ok .start hok

end Collect

/-! ### Well-formed trees -/

/-- No folder lies below itself, and a folder of `w` that is not in the trash lies at the root or in
another one. -/
structure LiveForest (w : WorkspaceResourceScope) (t : Folders) : Prop where
  acyclic : Forest.Acyclic (parentOf t)
  parents : ∀ f ∈ t.rows, f.ActiveIn w → ∀ p, f.parentId = some p → ∃ g, t.get p = some g ∧ g.ActiveIn w

/-- The same for every workspace, and for its files. -/
structure WellFormed (t : Tree) : Prop where
  forest : ∀ w, LiveForest w t.folders
  files : ∀ f ∈ t.files.rows, ∀ w, File.ActiveIn f w → ∀ p, f.folderId = some p →
    ∃ g, t.folders.get p = some g ∧ g.ActiveIn w

section

variable {t : Folders} {w : WorkspaceResourceScope} {f : Folder} {j k : ℕ}

theorem parentOf_support (t : Folders) : {i | (parentOf t i).isSome}.Finite := by
  refine (t.rows.map Folder.id).finite_toSet.subset fun i hi => ?_
  obtain ⟨p, hp⟩ := Option.isSome_iff_exists.mp hi
  obtain ⟨g, hg, -⟩ := Option.bind_eq_some_iff.mp hp
  exact List.mem_map.mpr ⟨g, Table.mem_of_get hg, Table.key_of_get hg⟩

/-- A forest read off the rows: parents are older than their children, and none of them is missing or
in the trash. -/
theorem LiveForest.of_rows (holder : ∀ f ∈ t.rows, ∀ p ∈ f.parentId, p < f.id)
    (hparents : ∀ f ∈ t.rows, f.ActiveIn w → ∀ p ∈ f.parentId, ∃ g ∈ t.rows, g.id = p ∧ g.ActiveIn w) :
    LiveForest w t := by
  constructor
  · have hrank : ∀ i p, parentOf t i = some p → id p < id i := by
      intro i p hp
      obtain ⟨f, hf, hp⟩ := Option.bind_eq_some_iff.mp hp
      rw [← Table.key_of_get hf]
      exact holder f (Table.mem_of_get hf) p hp
    exact Forest.acyclic_of_rank hrank
  · intro f hf hact p hp
    obtain ⟨g, hg, rfl, hgact⟩ := hparents f hf hact p hp
    exact ⟨g, Table.get_of_mem hg, hgact⟩

theorem LiveForest.wellFounded (h : LiveForest w t) : WellFounded (Forest.ParentOf (parentOf t)) :=
  Forest.wellFounded_of_acyclic (parentOf_support t) h.acyclic

theorem LiveForest.active_above (h : LiveForest w t) (hf : t.get k = some f) (hact : f.ActiveIn w)
    (hjk : Forest.AtOrAbove (parentOf t) j k) :
    ∃ g, t.get j = some g ∧ g.ActiveIn w := by
  induction hjk using Relation.ReflTransGen.head_induction_on with
  | refl => exact ⟨f, hf, hact⟩
  | @head j c hjc hck ih =>
    obtain ⟨g, hg, hgact⟩ := ih
    have hp : g.parentId = some j := (Forest.parentIn_of_lookup hg).symm.trans hjc
    exact h.parents g (Table.mem_of_get hg) hgact j hp

theorem inAncestorScope_of_workspace (h : f.workspace = some w) : inAncestorScope f w := by
  unfold Folder.workspace at h
  unfold inAncestorScope
  cases hteam : f.teamId with
  | none =>
    cases howner : f.ownerUserId with
    | none => simp [hteam, howner] at h
    | some u =>
      obtain rfl : WorkspaceResourceScope.personal u = w := by simpa [hteam, howner] using h
      simp
  | some team =>
    obtain rfl : WorkspaceResourceScope.team team = w := by simpa [hteam] using h
    simp

theorem liveFolder_of_active (hf : t.get k = some f) (hact : f.ActiveIn w) : liveFolder t w k = some f := by
  simp [liveFolder, hf, Option.filter, inAncestorScope_of_workspace hact.1, hact.2]

theorem get_of_liveFolder (h : liveFolder t w k = some f) : t.get k = some f := by
  exact (Option.filter_eq_some_iff.mp h).1

/-- The ancestor query on a folder that is not in the trash finds the folder and its ancestors. -/
theorem mem_findAncestorModels (h : LiveForest w t) (hf : t.get k = some f) (hact : f.ActiveIn w) :
    j ∈ (findAncestorModels t w k).map Folder.id ↔ Forest.AtOrAbove (parentOf t) j k := by
  let live := Forest.parentIn (liveFolder t w) Folder.parentId
  -- the query walks a part of the table
  have hsub : ∀ i p, live i = some p → parentOf t i = some p := by
    intro i p hip
    obtain ⟨g, hg, hp⟩ := Option.bind_eq_some_iff.mp hip
    exact (Forest.parentIn_of_lookup (get_of_liveFolder hg)).trans hp
  have hacyc : Forest.Acyclic live := fun i hi => h.acyclic i (hi.mono hsub)
  simp only [findAncestorModels, List.map_reverse, List.mem_reverse, List.mem_map]
  constructor
  · rintro ⟨g, hg, rfl⟩
    obtain ⟨i, hi, hik⟩ := Forest.mem_climb hg
    rw [Table.key_of_get (get_of_liveFolder hi)]
    exact hik.mono hsub
  · intro hjk
    obtain ⟨g, hg, hgact⟩ := h.active_above hf hact hjk
    refine ⟨g, ?_, Table.key_of_get hg⟩
    have hnodes : ∀ i, (liveFolder t w i).isSome → i ∈ t.rows.map Folder.id := by
      intro i hi
      obtain ⟨x, hx⟩ := Option.isSome_iff_exists.mp hi
      have hx := get_of_liveFolder hx
      exact List.mem_map.mpr ⟨x, Table.mem_of_get hx, Table.key_of_get hx⟩
    refine Forest.climb_complete hacyc hnodes List.nodup_nil (by simp) (by simp) (by simp)
      (liveFolder_of_active hg hgact) ?_
    -- every step of the way up is between folders that are not in the trash
    clear hg hgact g
    induction hjk using Relation.ReflTransGen.head_induction_on with
    | refl => exact .refl
    | @head i c hic hck ih =>
      obtain ⟨x, hx, hxact⟩ := h.active_above hf hact hck
      have hstep : live c = some i :=
        (Forest.parentIn_of_lookup (liveFolder_of_active hx hxact)).trans
          ((Forest.parentIn_of_lookup hx).symm.trans hic)
      exact Forest.AtOrAbove.trans (.of_above (.of_parent hstep)) ih

theorem parentOf_updateRows {q : Folder → Bool} {g : Folder → Folder} {hg : ∀ r, (g r).id = r.id} (i : ℕ) :
    parentOf (t.updateRows q g hg) i = (t.get i).bind fun r => (if q r then g r else r).parentId := by
  unfold parentOf Forest.parentIn
  rw [SerialTable.get_updateRows]
  cases t.get i <;> rfl

/-- Hanging folders under a folder of their workspace that is not in the trash and not below any of
them. -/
theorem LiveForest.reparent (h : LiveForest w t) {q : Folder → Bool} {g : Folder → Folder}
    {hg : ∀ r, (g r).id = r.id} {target : Option ℕ}
    (hset : ∀ r ∈ t.rows, q r → (g r).parentId = target ∧ (g r).workspace = r.workspace ∧ (g r).deletedAt = r.deletedAt)
    (htarget : ∀ k, target = some k → ∀ r ∈ t.rows, q r → r.ActiveIn w → ∃ x, t.get k = some x ∧ x.ActiveIn w)
    (hfree : ∀ k, target = some k → ∀ r ∈ t.rows, q r → ¬ Forest.AtOrAbove (parentOf t) r.id k) :
    LiveForest w (t.updateRows q g hg) := by
  have hkeep : ∀ r ∈ t.rows, ((if q r then g r else r).ActiveIn w ↔ r.ActiveIn w) := by
    intro r hr
    split_ifs with hq
    · unfold Folder.ActiveIn
      rw [(hset r hr hq).2.1, (hset r hr hq).2.2]
    · exact Iff.rfl
  have hafter : ∀ p x, t.get p = some x → x.ActiveIn w → ∃ y, (t.updateRows q g hg).get p = some y ∧ y.ActiveIn w := by
    intro p x hx hact
    refine ⟨if q x then g x else x, ?_, (hkeep x (Table.mem_of_get hx)).mpr hact⟩
    rw [SerialTable.get_updateRows, hx]
    rfl
  constructor
  · let S : ℕ → Prop := fun i => ∃ r, t.get i = some r ∧ q r = true
    have hmoved : ∀ i, S i → parentOf (t.updateRows q g hg) i = target := by
      rintro i ⟨r, hr, hq⟩
      rw [parentOf_updateRows, hr]
      simp [hq, (hset r (Table.mem_of_get hr) hq).1]
    have hrest : ∀ i, ¬ S i → parentOf (t.updateRows q g hg) i = parentOf t i := by
      intro i hi
      rw [parentOf_updateRows]
      cases hr : t.get i with
      | none => simp [parentOf, Forest.parentIn, hr]
      | some r =>
        have hq : ¬ q r = true := fun hq => hi ⟨r, hr, hq⟩
        simp [parentOf, Forest.parentIn, hr, hq]
    refine Forest.acyclic_of_wellFounded (Forest.wellFounded_reparent h.wellFounded hmoved hrest ?_)
    rintro k hk i ⟨r, hr, hq⟩
    have hnot := hfree k hk r (Table.mem_of_get hr) hq
    rwa [Table.key_of_get hr] at hnot
  · intro f hf hact p hp
    obtain ⟨r, hr, rfl⟩ := SerialTable.mem_updateRows.mp hf
    have hract := (hkeep r hr).mp hact
    split_ifs at hp with hq
    · rw [(hset r hr hq).1] at hp
      obtain ⟨x, hx, hxact⟩ := htarget p hp r hr hq hract
      exact hafter p x hx hxact
    · obtain ⟨x, hx, hxact⟩ := h.parents r hr hract p hp
      exact hafter p x hx hxact

end

end AsterDrive.Files
