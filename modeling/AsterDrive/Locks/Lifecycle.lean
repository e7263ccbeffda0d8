import AsterDrive.Locks.Schema

/-!
# Lifecycle — acquiring, releasing and refreshing resource locks

`services/files/lock/lifecycle.rs`, one committed transaction a function. Acquisition goes through the
rows of the namespace: it deletes what has expired and refuses a request that overlaps a lock that has
not, unless both are shared. Overlap is by identity for equal roots and for deep locks on the workspace
root; for a deep lock on a folder it is a question about the two presentation paths.

Release, refresh and replacement select their row by token or id. The clock is an argument, and so is
the token that an acquisition draws.
-/

namespace AsterDrive.Locks

open Db Files List Option LockTables

/-- The lock tables, the tree they are about, and the accounts that own workspaces. -/
structure LockDb extends LockTables where
  tree : Tree
  users : List ℕ
  teams : List ℕ

/-- `EntityType`. -/
inductive EntityType
  | file | folder

/-- The lock root of an entity. -/
def EntityType.root : EntityType → ℕ → LockRoot
  | file, id => .file id
  | folder, id => .folder id

structure LockTarget where
  workspace : WorkspaceResourceScope
  root : LockRoot
  depth : LockDepth

structure LockAcquireCommand where
  target : LockTarget
  mode : LockMode
  origin : LockOrigin
  holderUserId : Option ℕ
  ownerInfo : Option ResourceLockOwnerInfo
  timeout : Option ℕ
  presentationPath : Option String

/-! ### Rows and their workspaces -/

/-- `user_repo::find_by_id` and `team_repo::find_by_id`, and their locking variants. -/
def findWorkspaceOwner (db : LockDb) : WorkspaceResourceScope → Except AsterError Unit
  | .personal userId =>
    if userId ∈ db.users then .ok () else .error (recordNotFound ("user #" ++ toString userId))
  | .team teamId =>
    if teamId ∈ db.teams then .ok () else .error (recordNotFound ("team #" ++ toString teamId))

/-- A workspace that is not the expected one is refused. -/
def requireWorkspace (actual expected : WorkspaceResourceScope) (message : String) : Except AsterError Unit :=
  if actual ≠ expected then .error (resourceLocked message) else .ok ()

/-- `lock_and_revalidate_target`. -/
def lockAndRevalidateTarget (db : LockDb) (target : LockTarget) : Except AsterError Unit :=
  match target.root with
  | .workspaceRoot => findWorkspaceOwner db target.workspace
  | .file fileId => do
    let file ← findFileById db.tree.files fileId
    let workspace ← workspaceOfFile file
    requireWorkspace workspace target.workspace "file workspace changed during lock mutation"
  | .folder folderId => do
    let folder ← lockFolderById db.tree.folders folderId
    let workspace ← workspaceOfFolder folder
    requireWorkspace workspace target.workspace "folder workspace changed during lock mutation"

/-- `resolve_entity_target`. -/
def resolveEntityTarget (db : LockDb) (entityType : EntityType) (entityId : ℕ) :
    Except AsterError LockTarget :=
  match entityType with
  | .file => do
    let file ← findFileById db.tree.files entityId
    let workspace ← workspaceOfFile file
    pure { workspace, root := .file entityId, depth := .resource }
  | .folder => do
    let folder ← findFolderById db.tree.folders entityId
    let workspace ← workspaceOfFolder folder
    pure { workspace, root := .folder entityId, depth := .resource }

/-- `lock_target_namespace`. -/
def lockTargetNamespace (db : LockDb) (workspace : WorkspaceResourceScope) :
    Except AsterError (ResourceLockNamespace × LockDb) := do
  findWorkspaceOwner db workspace
  let (ns, tables) := db.ensureAndLock workspace
  pure (ns, { db with toLockTables := tables })

/-- `lock_workspace_for_mutation_on`. -/
def lockWorkspaceForMutationOn (db : LockDb) (workspace : WorkspaceResourceScope) : ResourceLockNamespace × LockDb :=
  let (ns, tables) := db.ensureAndLock workspace
  (ns, { db with toLockTables := tables })

/-! ### Presentation paths -/

/-- `str::starts_with`. -/
def startsWith (s p : String) : Bool := p.toList.isPrefixOf s.toList

/-- `ends_with('/')`. -/
def endsWithSlash (s : String) : Bool := s.toList.getLast? = some '/'

/-- `path_is_ancestor`. -/
def pathIsAncestor (ancestor descendant : String) : Bool :=
  decide (ancestor = descendant) ||
    startsWith descendant (if endsWithSlash ancestor then ancestor else ancestor ++ "/")

/-- The names of a folder and of the folders above it, from the top. The loop of
`build_folder_path_entries_from_chain_map` does not end on a cycle; here it runs out of rounds. -/
def folderNames (t : Folders) : ℕ → Option ℕ → Except AsterError (List String)
  | _, none => .ok []
  | 0, some _ => .error (internalError "folder path does not end")
  | n + 1, some id => do
    let folder ← findFolderById t id
    let above ← folderNames t n folder.parentId
    pure (above ++ [folder.name])

/-- `build_folder_paths` for one folder. -/
def buildFolderPath (t : Folders) (folderId : ℕ) : Except AsterError String := do
  let parts ← folderNames t (t.rows.length + 1) (some folderId)
  pure ("/" ++ "/".intercalate parts)

/-- The path in front of the name of a file. -/
def folderPrefix (t : Folders) : Option ℕ → Except AsterError String
  | none => .ok ""
  | some folderId => do
    let path ← buildFolderPath t folderId
    pure (path ++ "/")

/-- `resolve_entity_path`: the product's own path of a resource. -/
def resolveEntityPath (db : LockDb) (entityType : EntityType) (entityId : ℕ) : Except AsterError String :=
  match entityType with
  | .file => do
    let f ← findFileById db.tree.files entityId
    let folderPath ← folderPrefix db.tree.folders f.folderId
    let folderPath := if folderPath = "" then "/" else folderPath
    pure (match f.teamId with
      | some teamId => "/teams/" ++ toString teamId ++ folderPath ++ f.name
      | none => folderPath ++ f.name)
  | .folder => do
    let f ← findFolderById db.tree.folders entityId
    let path ← buildFolderPath db.tree.folders f.id
    pure (match f.teamId with
      | some teamId => "/teams/" ++ toString teamId ++ path ++ "/"
      | none => path ++ "/")

/-! ### Acquisition -/

/-- `locks_overlap`. -/
def locksOverlap (existing : ResourceLock) (requested : LockTarget) (requestedPath : Option String) : Bool :=
  if existing.root = requested.root then true
  else if existing.root = .workspaceRoot ∧ existing.depth = .infinity then true
  else if requested.root = .workspaceRoot ∧ requested.depth = .infinity then true
  else match existing.lockrootPath, requestedPath with
    | some existingPath, some requestedPath =>
      pathIsAncestor existingPath requestedPath && decide (existing.depth = .infinity) ||
        pathIsAncestor requestedPath existingPath && decide (requested.depth = .infinity)
    | _, _ => false

/-- The loop of `acquire_after_namespace_lock_on` over the rows of the namespace. -/
def clearForAcquisition (now : ℕ) (command : LockAcquireCommand) :
    List ResourceLock → LockTables → Except AsterError LockTables
  | [], d => .ok d
  | existing :: rest, d =>
    if existing.expired now then
      clearForAcquisition now command rest (d.deleteLocks fun l => l.id = existing.id)
    else if locksOverlap existing command.target command.presentationPath ∧
        (command.mode = .exclusive ∨ existing.mode = .exclusive) then
      .error (resourceLocked "resource is already locked")
    else clearForAcquisition now command rest d

/-- The row of an acquired lock. -/
def LockAcquireCommand.row (command : LockAcquireCommand) (namespaceId : ℕ) (token : String) (now id : ℕ) :
    ResourceLock where
  id := id
  token := token
  namespaceId := namespaceId
  root := command.target.root
  depth := command.target.depth
  mode := command.mode
  origin := command.origin
  holderUserId := command.holderUserId
  ownerInfo := command.ownerInfo
  timeoutAt := command.timeout.map fun duration => now + duration
  lockrootPath := command.presentationPath

/-- `acquire_after_namespace_lock_on`. -/
def acquireAfterNamespaceLockOn (db : LockDb) (ns : ResourceLockNamespace) (command : LockAcquireCommand)
    (token : String) (now : ℕ) : Except AsterError (ResourceLock × LockDb) := do
  requireWorkspace ns.workspace command.target.workspace "lock namespace does not match the requested workspace"
  lockAndRevalidateTarget db command.target
  let cleared ← clearForAcquisition now command (db.findAllByNamespace ns.id) db.toLockTables
  let (lock, created) ← cleared.create (command.row ns.id token now) fun _ => rfl
  let tables ← created.incrementGeneration ns
  pure (lock, { db with toLockTables := tables })

/-- `origin_for_owner_info`. -/
def originForOwnerInfo : Option ResourceLockOwnerInfo → LockOrigin
  | some (.webdav _) => .webDav
  | some (.wopi _ _) => .wopi
  | some (.text _) | none => .product

/-- What `lock` works out before it acquires: an exclusive lock on one file or folder, with the
product's path. -/
def prepareLock (db : LockDb) (entityType : EntityType) (entityId : ℕ) (ownerId : Option ℕ)
    (ownerInfo : Option ResourceLockOwnerInfo) (timeout : Option ℕ) :
    Except AsterError (ResourceLockNamespace × LockDb × LockAcquireCommand) := do
  let target ← resolveEntityTarget db entityType entityId
  let (ns, db) ← lockTargetNamespace db target.workspace
  lockAndRevalidateTarget db target
  let path ← resolveEntityPath db entityType entityId
  pure (ns, db,
    { target, mode := .exclusive, origin := originForOwnerInfo ownerInfo, holderUserId := ownerId, ownerInfo
      timeout, presentationPath := some path })

/-- `lock`. -/
def lock (db : LockDb) (entityType : EntityType) (entityId : ℕ) (ownerId : Option ℕ)
    (ownerInfo : Option ResourceLockOwnerInfo) (timeout : Option ℕ) (token : String) (now : ℕ) :
    Except AsterError (ResourceLock × LockDb) := do
  let (ns, db, command) ← prepareLock db entityType entityId ownerId ownerInfo timeout
  acquireAfterNamespaceLockOn db ns command token now

/-- What `acquire_on` does before it acquires. -/
def prepareAcquire (db : LockDb) (command : LockAcquireCommand) :
    Except AsterError (ResourceLockNamespace × LockDb × LockAcquireCommand) := do
  let (ns, db) ← lockTargetNamespace db command.target.workspace
  pure (ns, db, command)

/-- `acquire_on`, behind `acquire`. -/
def acquireOn (db : LockDb) (command : LockAcquireCommand) (token : String) (now : ℕ) :
    Except AsterError (ResourceLock × LockDb) := do
  let (ns, db, command) ← prepareAcquire db command
  acquireAfterNamespaceLockOn db ns command token now

/-! ### Release -/

/-- `entity_condition`. -/
def rootedOn (entityType : EntityType) (entityId : ℕ) (l : ResourceLock) : Bool := l.root = entityType.root entityId

/-- `check_entity_ownership`. -/
def checkEntityOwnership (db : LockDb) (entityType : EntityType) (entityId userId : ℕ) :
    Except AsterError Bool :=
  match entityType with
  | .file => do
    let f ← findFileById db.tree.files entityId
    pure (f.ownerUserId = some userId)
  | .folder => do
    let f ← findFolderById db.tree.folders entityId
    pure (f.ownerUserId = some userId)

/-- The rows that `unlock` removes after the expired ones are gone. -/
def releasableBy (db : LockDb) (entityType : EntityType) (entityId userId : ℕ)
    (locks : List ResourceLock) : Except AsterError (ResourceLock → Bool) :=
  if locks = [] then .ok fun _ => false
  else do
    let owner ← checkEntityOwnership db entityType entityId userId
    if owner then .ok (rootedOn entityType entityId)
    else if locks.any fun l => l.holderUserId ≠ some userId then
      .error (authForbidden "not the lock owner" (some .lockNotOwner))
    else .ok fun l => rootedOn entityType entityId l && decide (l.holderUserId = some userId)

/-- The generation is incremented when rows were removed. -/
def bumpIf (d : LockTables) (changed : Bool) (ns : ResourceLockNamespace) : Except AsterError LockTables :=
  if changed then d.incrementGeneration ns else .ok d

/-- `unlock`: all direct locks that the actor may release. -/
def unlock (db : LockDb) (entityType : EntityType) (entityId userId now : ℕ) : Except AsterError LockDb := do
  let target ← resolveEntityTarget db entityType entityId
  let (ns, db) ← lockTargetNamespace db target.workspace
  lockAndRevalidateTarget db target
  let stale : ResourceLock → Bool := fun l => rootedOn entityType entityId l && l.expired now
  let fresh := db.toLockTables.deleteLocks stale
  let locks := fresh.locks.rows.filter (rootedOn entityType entityId)
  let gone ← releasableBy db entityType entityId userId locks
  let changed := decide (db.locks.affected stale ≠ 0) || decide (locks ≠ [])
  let tables ← bumpIf (fresh.deleteLocks gone) changed ns
  pure { db with toLockTables := tables }

inductive LockSelector
  | token (token : String)
  | id (id : ℕ)

/-- `find_by_token_for_update` and `find_by_id_for_update`. -/
def LockSelector.find (d : LockTables) : LockSelector → Except AsterError ResourceLock
  | token t => (d.findByToken t).elim (.error (recordNotFound "lock not found")) .ok
  | id i => (d.locks.get i).elim (.error (recordNotFound "lock not found")) .ok

/-- `lock_snapshot_target`. -/
def lockSnapshotTarget (db : LockDb) (l : ResourceLock) (ns : ResourceLockNamespace) : Except AsterError Unit :=
  lockAndRevalidateTarget db { workspace := ns.workspace, root := l.root, depth := l.depth }

/-- The selected row is still about the resource that the snapshot was about. -/
def requireSameRoot (current snapshot : ResourceLock) (message : String) : Except AsterError Unit :=
  if current.namespaceId ≠ snapshot.namespaceId ∨ current.root ≠ snapshot.root then
    .error (resourceLocked message)
  else .ok ()

/-- `release_snapshot_on`. -/
def releaseSnapshotOn (db : LockDb) (snapshot : ResourceLock) (selector : LockSelector) :
    Except AsterError (ResourceLock × LockDb) := do
  let ns ← db.lockNamespaceById snapshot.namespaceId
  lockSnapshotTarget db snapshot ns
  let current ← selector.find db.toLockTables
  requireSameRoot current snapshot "resource lock target changed while releasing it"
  let tables ← (db.toLockTables.deleteLocks fun l => l.id = current.id).incrementGeneration ns
  pure (current, { db with toLockTables := tables })

/-! ### Refresh -/

/-- The columns that a refresh, and with `ownerInfo` a replacement, writes. -/
def retime (ownerInfo : Option ResourceLockOwnerInfo) (newTimeoutAt : Option ℕ) (l : ResourceLock) :
    ResourceLock :=
  { l with timeoutAt := newTimeoutAt, ownerInfo := ownerInfo.or l.ownerInfo }

/-- The transaction of `refresh_by_token_on` and of `replace_owner_info_and_timeout_by_token_on`, which
also writes `owner_info`. -/
def retimeSnapshotOn (db : LockDb) (snapshot : ResourceLock) (token : String)
    (ownerInfo : Option ResourceLockOwnerInfo) (newTimeoutAt : Option ℕ) (changed : String) :
    Except AsterError (ResourceLock × LockDb) := do
  let ns ← db.lockNamespaceById snapshot.namespaceId
  lockSnapshotTarget db snapshot ns
  let current ← (LockSelector.token token).find db.toLockTables
  requireSameRoot current snapshot changed
  let tables ← (db.toLockTables.updateLocks (fun l => l.id = current.id) (retime ownerInfo newTimeoutAt)
    fun _ => ⟨rfl, rfl⟩).incrementGeneration ns
  pure (retime ownerInfo newTimeoutAt current, { db with toLockTables := tables })

/-- `refresh_by_token_on`, from the snapshot that it read. -/
def refreshByTokenOn (db : LockDb) (snapshot : ResourceLock) (token : String) (newTimeoutAt : Option ℕ) :
    Except AsterError (ResourceLock × LockDb) :=
  retimeSnapshotOn db snapshot token none newTimeoutAt "resource lock target changed while refreshing it"

/-- `replace_owner_info_and_timeout_by_token_on`, from the snapshot that it read. -/
def replaceOwnerInfoAndTimeoutByTokenOn (db : LockDb) (snapshot : ResourceLock) (token : String)
    (ownerInfo : ResourceLockOwnerInfo) (newTimeoutAt : Option ℕ) : Except AsterError (ResourceLock × LockDb) :=
  retimeSnapshotOn db snapshot token (some ownerInfo) newTimeoutAt "resource lock target changed while replacing it"

/-! ### Cleanup -/

/-- The transaction of `cleanup_expired` for one namespace; `cutoff` was read before it. -/
def cleanupNamespace (db : LockDb) (namespaceId cutoff : ℕ) : Except AsterError LockDb := do
  let ns ← db.lockNamespaceById namespaceId
  let stale : ResourceLock → Bool := fun l => decide (l.namespaceId = namespaceId) && l.expired cutoff
  let tables ← bumpIf (db.toLockTables.deleteLocks stale) (decide (db.locks.affected stale ≠ 0)) ns
  pure { db with toLockTables := tables }

/-! ### What the transactions do -/

/-- The row of a lock root is there and belongs to the workspace. -/
def RootIn (t : Tree) (w : WorkspaceResourceScope) : LockRoot → Prop
  | .workspaceRoot => True
  | .file id => ∃ f, t.files.get id = some f ∧ f.workspace = some w
  | .folder id => ∃ f, t.folders.get id = some f ∧ f.workspace = some w

/-- The workspace of a namespace. -/
def LockTables.workspaceOf (d : LockTables) (namespaceId : ℕ) : Option WorkspaceResourceScope :=
  (d.namespaces.get namespaceId).map ResourceLockNamespace.workspace

/-- What no lock transaction touches: the tree, the accounts, and whose a namespace is. -/
structure Frame (db db' : LockDb) : Prop where
  tree : db'.tree = db.tree
  users : db'.users = db.users
  teams : db'.teams = db.teams
  workspaces : ∀ n w, db.workspaceOf n = some w → db'.workspaceOf n = some w

theorem Frame.trans {db db' db'' : LockDb} (h : Frame db db') (h' : Frame db' db'') : Frame db db'' where
  tree := h'.tree.trans h.tree
  users := h'.users.trans h.users
  teams := h'.teams.trans h.teams
  workspaces := fun n w hw => h'.workspaces n w (h.workspaces n w hw)

section

variable {db db' : LockDb} {d d' d1 : LockTables} {ns : ResourceLockNamespace} {w : WorkspaceResourceScope}
variable {target : LockTarget} {command : LockAcquireCommand} {token : String} {now : ℕ} {l : ResourceLock}

variable {message : String}

theorem requireWorkspace_ok {w' : WorkspaceResourceScope} : requireWorkspace w w' message = .ok () ↔ w = w' := by
  unfold requireWorkspace
  split_ifs with h
  · simp [h]
  · simpa using h

theorem lockAndRevalidateTarget_ok (h : lockAndRevalidateTarget db target = .ok ()) :
    RootIn db.tree target.workspace target.root := by
  unfold lockAndRevalidateTarget at h
  cases hroot : target.root with
  | workspaceRoot => trivial
  | file id =>
    rw [hroot] at h
    obtain ⟨f, hf, h⟩ := bind_ok h
    obtain ⟨w, hw, h⟩ := bind_ok h
    obtain rfl := (requireWorkspace_ok).mp h
    exact ⟨f, findFileById_ok.mp hf, workspaceOfFile_ok.mp hw⟩
  | folder id =>
    rw [hroot] at h
    obtain ⟨f, hf, h⟩ := bind_ok h
    obtain ⟨w, hw, h⟩ := bind_ok h
    obtain rfl := (requireWorkspace_ok).mp h
    exact ⟨f, lockFolderById_ok.mp hf, workspaceOfFolder_ok.mp hw⟩

variable {n : ℕ}

theorem get_ensureAndLock (h : d.ensureAndLock w = (ns, d')) {r : ResourceLockNamespace}
    (hr : d.namespaces.get n = some r) : d'.namespaces.get n = some r := by
  unfold ensureAndLock at h
  split at h
  · cases h
    exact hr
  · cases h
    rw [Namespaces.get_insertRow, if_neg (SerialTable.lt_next_of_get hr).ne']
    exact hr

theorem workspaceOf_ensureAndLock (h : d.ensureAndLock w = (ns, d')) {v : WorkspaceResourceScope}
    (hv : d.workspaceOf n = some v) : d'.workspaceOf n = some v := by
  obtain ⟨r, hr, rfl⟩ := map_eq_some_iff.mp hv
  simp [workspaceOf, get_ensureAndLock h hr]

theorem workspaceOf_increment (h : d.incrementGeneration ns = .ok d') (n : ℕ) : d'.workspaceOf n = d.workspaceOf n := by
  obtain ⟨hns, -⟩ := incrementGeneration_ok h
  unfold workspaceOf
  rw [hns, Namespaces.get_setGeneration]
  cases d.namespaces.get n with
  | none => rfl
  | some r =>
    simp only [map_some]
    split_ifs <;> rfl

theorem lockWorkspaceForMutationOn_eq (h : lockWorkspaceForMutationOn db w = (ns, db')) :
    db'.namespaces.get ns.id = some ns ∧ ns.workspace = w ∧ db'.locks = db.locks ∧ Frame db db' ∧
      Newer db.toLockTables db'.toLockTables ∧
      ∀ n r, db.namespaces.get n = some r → db'.namespaces.get n = some r := by
  unfold lockWorkspaceForMutationOn at h
  rcases hens : db.ensureAndLock w with ⟨ns0, tables⟩
  rw [hens] at h
  cases h
  obtain ⟨hget, hw, hlocks, -, -⟩ := ensureAndLock_eq hens
  exact ⟨hget, hw, hlocks, ⟨rfl, rfl, rfl, fun n v hv => workspaceOf_ensureAndLock hens hv⟩,
    .of_ensureAndLock hens, fun n r hr => get_ensureAndLock hens hr⟩

theorem lockTargetNamespace_ok (h : lockTargetNamespace db w = .ok (ns, db')) :
    db'.namespaces.get ns.id = some ns ∧ ns.workspace = w ∧ db'.locks = db.locks ∧ Frame db db' ∧
      Newer db.toLockTables db'.toLockTables := by
  obtain ⟨⟨⟩, -, h⟩ := bind_ok h
  obtain ⟨hget, hw, hlocks, hframe, hnewer, -⟩ := lockWorkspaceForMutationOn_eq (pure_ok_iff.mp h)
  exact ⟨hget, hw, hlocks, hframe, hnewer⟩

theorem clearForAcquisition_ok {rows : List ResourceLock} (h : clearForAcquisition now command rows d = .ok d') :
    (∀ e ∈ rows, e.expired now = false → locksOverlap e command.target command.presentationPath →
        ¬ (command.mode = .exclusive ∨ e.mode = .exclusive)) ∧
      d'.namespaces = d.namespaces ∧ d'.locks.next = d.locks.next ∧
      d'.locks.rows = d.locks.rows.filter fun l =>
        !rows.any fun e => e.expired now && decide (l.id = e.id) := by
  induction rows generalizing d with
  | nil =>
    cases h
    simp
  | cons e rest ih =>
    simp only [clearForAcquisition] at h
    split_ifs at h with hexp hover
    · obtain ⟨hfree, hns, hnext, hrows⟩ := ih h
      refine ⟨?_, hns, hnext, ?_⟩
      · intro x hx hlive
        rcases mem_cons.mp hx with rfl | hx
        · simp [hexp] at hlive
        · exact hfree x hx hlive
      · rw [hrows]
        show ((d.locks.rows.filter _).filter _) = _
        rw [List.filter_filter]
        refine filter_congr fun l _ => ?_
        simp [hexp, Bool.and_comm]
    · obtain ⟨hfree, hns, hnext, hrows⟩ := ih h
      refine ⟨?_, hns, hnext, ?_⟩
      · intro x hx hlive hx' hmode
        rcases mem_cons.mp hx with rfl | hx
        · exact hover ⟨hx', hmode⟩
        · exact hfree x hx hlive hx' hmode
      · rw [hrows]
        refine filter_congr fun l _ => ?_
        simp [hexp]

/-- What a successful acquisition does to the rows. -/
structure Acquired (db : LockDb) (ns : ResourceLockNamespace) (command : LockAcquireCommand) (token : String)
    (now : ℕ) (row : ResourceLock) (db' : LockDb) : Prop where
  taken : db.namespaces.get ns.id = some ns
  workspace : ns.workspace = command.target.workspace
  root : RootIn db.tree command.target.workspace command.target.root
  free : ∀ e ∈ db.locks.rows, e.namespaceId = ns.id → e.expired now = false →
    locksOverlap e command.target command.presentationPath →
    ¬ (command.mode = .exclusive ∨ e.mode = .exclusive)
  lock : row = command.row ns.id token now db.locks.next
  rows : db'.locks.rows = (db.locks.rows.filter fun l => !(decide (l.namespaceId = ns.id) && l.expired now)) ++ [row]
  next : db'.locks.next = db.locks.next + 1
  frame : Frame db db'
  newer : Newer db.toLockTables db'.toLockTables

theorem acquireAfterNamespaceLockOn_ok {lock : ResourceLock} (hns : db.namespaces.get ns.id = some ns)
    (h : acquireAfterNamespaceLockOn db ns command token now = .ok (lock, db')) :
    Acquired db ns command token now lock db' := by
  obtain ⟨⟨⟩, hws, h⟩ := bind_ok h
  obtain ⟨⟨⟩, hroot, h⟩ := bind_ok h
  obtain ⟨cleared, hclear, h⟩ := bind_ok h
  obtain ⟨⟨lock0, created⟩, hcreate, h⟩ := bind_ok h
  obtain ⟨tables, hinc, h⟩ := bind_ok h
  cases h
  obtain ⟨hfree, hns1, hnext, hrows⟩ := clearForAcquisition_ok hclear
  obtain ⟨hlock, hns2, hlocks⟩ := create_ok hcreate
  obtain ⟨-, hlocks'⟩ := incrementGeneration_ok hinc
  -- a row that the loop deletes is an expired row of the namespace
  have hkept : cleared.locks.rows =
      db.locks.rows.filter fun l => !(decide (l.namespaceId = ns.id) && l.expired now) := by
    rw [hrows]
    refine filter_congr fun l hl => ?_
    rw [Bool.eq_iff_iff]
    simp only [Bool.not_eq_true', List.any_eq_false, Bool.and_eq_true, decide_eq_true_eq,
      mem_findAllByNamespace, Bool.and_eq_false_iff, decide_eq_false_iff_not]
    constructor
    · intro hnone
      by_contra hboth
      simp only [not_or, not_not, Bool.not_eq_false] at hboth
      exact hnone l ⟨hl, hboth.1⟩ ⟨hboth.2, rfl⟩
    · rintro hkeep e ⟨he, hens⟩ ⟨hexp, hid⟩
      obtain rfl := Table.eq_of_key hl he hid
      rcases hkeep with hkeep | hkeep
      · exact hkeep hens
      · rw [hkeep] at hexp
        cases hexp
  refine ⟨hns, (requireWorkspace_ok).mp hws, lockAndRevalidateTarget_ok hroot, ?_, ?_, ?_, ?_, ?_, ?_⟩
  · intro e he hens
    exact hfree e (mem_findAllByNamespace.mpr ⟨he, hens⟩)
  · rw [hlock, hnext]
  · show tables.locks.rows = _
    rw [hlocks', hlocks, ← hkept, hlock]
    rfl
  · show tables.locks.next = _
    rw [hlocks', hlocks, ← hnext]
    rfl
  · refine ⟨rfl, rfl, rfl, fun n v hv => ?_⟩
    show tables.workspaceOf n = some v
    rw [workspaceOf_increment hinc]
    unfold workspaceOf at hv ⊢
    rw [hns2, hns1]
    exact hv
  · refine Newer.of_increment hns (hns2.trans hns1) (fun n hn => ?_) hinc
    show created.locks.rows.filter _ = db.locks.rows.filter _
    rw [hlocks]
    show (cleared.locks.rows ++ [_]).filter _ = _
    rw [hkept, filter_append, List.filter_filter]
    have hnew : (command.row ns.id token now cleared.locks.next).namespaceId ≠ n := fun heq => hn heq.symm
    rw [filter_singleton, decide_eq_false hnew, Bool.cond_false, append_nil]
    refine filter_congr fun l _ => ?_
    by_cases hln : l.namespaceId = n
    · simp [hln, hn]
    · simp [hln]

/-- Preparing an acquisition leaves every row alone and names the namespace of the workspace. -/
theorem prepareAcquire_ok {db1 : LockDb} {command' : LockAcquireCommand}
    (h : prepareAcquire db command = .ok (ns, db1, command')) :
    command' = command ∧ db1.namespaces.get ns.id = some ns ∧ db1.locks = db.locks ∧ Frame db db1 ∧
      Newer db.toLockTables db1.toLockTables := by
  obtain ⟨⟨ns0, db0⟩, hns, h⟩ := bind_ok h
  obtain ⟨rfl, hrest⟩ := Prod.mk.inj (pure_ok_iff.mp h)
  cases hrest
  obtain ⟨hget, -, hlocks, hframe⟩ := lockTargetNamespace_ok hns
  exact ⟨rfl, hget, hlocks, hframe⟩

theorem resolveEntityTarget_ok {entityType : EntityType} {entityId : ℕ}
    (h : resolveEntityTarget db entityType entityId = .ok target) :
    target.root = entityType.root entityId ∧ target.depth = .resource := by
  cases entityType with
  | file | folder =>
    obtain ⟨f, -, h⟩ := bind_ok h
    obtain ⟨w, -, h⟩ := bind_ok h
    cases h
    exact ⟨rfl, rfl⟩

variable {ownerInfo : Option ResourceLockOwnerInfo}

theorem prepareLock_ok {db1 : LockDb} {entityType : EntityType} {entityId : ℕ} {ownerId timeout : Option ℕ}
    (h : prepareLock db entityType entityId ownerId ownerInfo timeout = .ok (ns, db1, command)) :
    (command.holderUserId = ownerId ∧ command.origin = originForOwnerInfo ownerInfo ∧
        command.target.root = entityType.root entityId ∧ command.target.depth = .resource) ∧
      db1.namespaces.get ns.id = some ns ∧ db1.locks = db.locks ∧ Frame db db1 ∧
      Newer db.toLockTables db1.toLockTables := by
  obtain ⟨target, htarget, h⟩ := bind_ok h
  obtain ⟨⟨ns0, db0⟩, hns, h⟩ := bind_ok h
  obtain ⟨⟨⟩, -, h⟩ := bind_ok h
  obtain ⟨path, -, h⟩ := bind_ok h
  obtain ⟨rfl, hrest⟩ := Prod.mk.inj (pure_ok_iff.mp h)
  cases hrest
  obtain ⟨hget, -, hlocks, hframe⟩ := lockTargetNamespace_ok hns
  exact ⟨⟨rfl, rfl, resolveEntityTarget_ok htarget⟩, hget, hlocks, hframe⟩

/-! #### Rows that go, and rows that are set -/

/-- Lock rows went, and nothing else changed. -/
structure Released (db db' : LockDb) : Prop where
  rows : ∃ p, db'.locks.rows = db.locks.rows.filter p
  next : db'.locks.next = db.locks.next
  frame : Frame db db'

variable {changed : Bool}

theorem bumpIf_ok (h : bumpIf d changed ns = .ok d') :
    d'.locks = d.locks ∧ ∀ n, d'.workspaceOf n = d.workspaceOf n := by
  unfold bumpIf at h
  split_ifs at h
  · exact ⟨(incrementGeneration_ok h).2, workspaceOf_increment h⟩
  · cases h
    exact ⟨rfl, fun _ => rfl⟩

variable {p : ResourceLock → Bool}

theorem Released.of_delete {tables : LockTables} (h : bumpIf (db.toLockTables.deleteLocks p) changed ns = .ok tables) :
    Released db { db with toLockTables := tables } := by
  obtain ⟨hlocks, hws⟩ := bumpIf_ok h
  refine ⟨⟨fun x => !p x, ?_⟩, ?_, rfl, rfl, rfl, fun n v hv => ?_⟩
  · show tables.locks.rows = _
    rw [hlocks]
    rfl
  · show tables.locks.next = _
    rw [hlocks]
    rfl
  · exact (hws n).trans hv

/-- Deleting rows of one namespace goes with its generation, unless there were none to delete. -/
theorem Newer.of_delete (hns : d.namespaces.get ns.id = some ns) (hp : ∀ x ∈ d.locks.rows, p x → x.namespaceId = ns.id)
    (hnone : changed = false → ∀ x ∈ d.locks.rows, p x = false)
    (h : bumpIf (d.deleteLocks p) changed ns = .ok d') : Newer d d' := by
  unfold bumpIf at h
  split_ifs at h with hchanged
  · refine Newer.of_increment (e := d.deleteLocks p) hns rfl (fun n hn => ?_) h
    show (d.locks.rows.filter _).filter _ = d.locks.rows.filter _
    rw [List.filter_filter]
    refine filter_congr fun x hx => ?_
    by_cases hxn : x.namespaceId = n
    · have : p x = false := by
        by_contra hpx
        exact hn (hxn.symm.trans (hp x hx (by simpa using hpx)))
      simp [this]
    · simp [hxn]
  · cases h
    refine ⟨le_rfl, fun n r' hr' _ => ⟨r', hr', le_rfl, fun _ => ?_⟩⟩
    have hsame : (d.deleteLocks p).locks.rows = d.locks.rows := by
      refine filter_eq_self.mpr fun x hx => ?_
      simp [hnone (by simpa using hchanged) x hx]
    unfold findAllByNamespace
    rw [hsame]

theorem affected_eq_zero {t : ResourceLocks} (h : t.affected p = 0) : ∀ x ∈ t.rows, p x = false := by
  intro x hx
  have := countP_eq_zero.mp h x hx
  simpa using this

theorem cleanupNamespace_ok {cutoff : ℕ} (h : cleanupNamespace db n cutoff = .ok db') :
    Released db db' ∧ Newer db.toLockTables db'.toLockTables := by
  obtain ⟨ns, hns, h⟩ := bind_ok h
  obtain ⟨tables, hbump, h⟩ := bind_ok h
  cases h
  have hget := lockNamespaceById_ok.mp hns
  obtain rfl : ns.id = n := Table.key_of_get hget
  refine ⟨.of_delete hbump, .of_delete hget (fun x _ hx => ?_) (fun hch => ?_) hbump⟩
  · exact of_decide_eq_true (Bool.and_eq_true_iff.mp hx).1
  · exact affected_eq_zero (by simpa using hch)

theorem LockSelector.find_ok {selector : LockSelector} (h : selector.find d = .ok l) : l ∈ d.locks.rows := by
  cases selector with
  | token t =>
    cases hrow : d.findByToken t with
    | none => simp [LockSelector.find, hrow] at h
    | some r =>
      obtain rfl : r = l := by simpa [LockSelector.find, hrow] using h
      exact (findByToken_eq_some hrow).1
  | id i =>
    cases hrow : d.locks.get i with
    | none => simp [LockSelector.find, hrow] at h
    | some r =>
      obtain rfl : r = l := by simpa [LockSelector.find, hrow] using h
      exact Table.mem_of_get hrow

variable {snapshot : ResourceLock}

theorem requireSameRoot_ok {current : ResourceLock} (h : requireSameRoot current snapshot message = .ok ()) :
    current.namespaceId = snapshot.namespaceId ∧ current.root = snapshot.root := by
  unfold requireSameRoot at h
  split_ifs at h with hdiff
  simpa [not_or] using hdiff

theorem releaseSnapshotOn_ok {row : ResourceLock} {selector : LockSelector}
    (h : releaseSnapshotOn db snapshot selector = .ok (row, db')) :
    Released db db' ∧ Newer db.toLockTables db'.toLockTables := by
  obtain ⟨ns, hns, h⟩ := bind_ok h
  obtain ⟨⟨⟩, -, h⟩ := bind_ok h
  obtain ⟨current, hfind, h⟩ := bind_ok h
  obtain ⟨⟨⟩, hsame, h⟩ := bind_ok h
  obtain ⟨tables, hinc, h⟩ := bind_ok h
  obtain ⟨rfl, rfl⟩ := Prod.mk.inj (pure_ok_iff.mp h)
  have hget := lockNamespaceById_ok.mp hns
  have hid : ns.id = snapshot.namespaceId := Table.key_of_get hget
  rw [← hid] at hget
  have hbump : bumpIf (db.toLockTables.deleteLocks fun l => l.id = current.id) true ns = .ok tables := hinc
  refine ⟨.of_delete hbump, .of_delete hget (fun x hx hxid => ?_) (by simp) hbump⟩
  obtain rfl := Table.eq_of_key hx (LockSelector.find_ok hfind) (of_decide_eq_true hxid)
  rw [(requireSameRoot_ok hsame).1, hid]

theorem filter_retime {rows : List ResourceLock} {i : ℕ}
    {timeoutAt : Option ℕ} (h : ∀ x ∈ rows, x.id = i → x.namespaceId ≠ n) :
    (rows.map fun l => if decide (l.id = i) then retime ownerInfo timeoutAt l else l).filter
      (fun l => decide (l.namespaceId = n)) = rows.filter fun l => decide (l.namespaceId = n) := by
  induction rows with
  | nil => rfl
  | cons x xs ih =>
    rw [map_cons, filter_cons, filter_cons, ih fun y hy => h y (mem_cons_of_mem _ hy)]
    by_cases hxid : x.id = i
    · have hxn := h x mem_cons_self hxid
      simp [retime, hxid, hxn]
    · simp [hxid]

theorem retimeSnapshotOn_ok {row : ResourceLock} {timeoutAt : Option ℕ}
    (h : retimeSnapshotOn db snapshot token ownerInfo timeoutAt message = .ok (row, db')) :
    ∃ current, db.findByToken token = some current ∧ row = retime ownerInfo timeoutAt current ∧
      db'.locks.rows = db.locks.rows.map (fun l =>
        if decide (l.id = current.id) then retime ownerInfo timeoutAt l else l) ∧
      db'.locks.next = db.locks.next ∧ Frame db db' ∧ Newer db.toLockTables db'.toLockTables := by
  obtain ⟨ns, hns, h⟩ := bind_ok h
  obtain ⟨⟨⟩, -, h⟩ := bind_ok h
  obtain ⟨current, hfind, h⟩ := bind_ok h
  obtain ⟨⟨⟩, hsame, h⟩ := bind_ok h
  obtain ⟨tables, hinc, h⟩ := bind_ok h
  cases h
  have hget := lockNamespaceById_ok.mp hns
  have hid : ns.id = snapshot.namespaceId := Table.key_of_get hget
  rw [← hid] at hget
  have hcur := LockSelector.find_ok hfind
  obtain ⟨-, hlocks⟩ := incrementGeneration_ok hinc
  have htoken : db.findByToken token = some current := by
    cases hrow : db.findByToken token with
    | none => simp [LockSelector.find, hrow] at hfind
    | some r =>
      obtain rfl : r = current := by simpa [LockSelector.find, hrow] using hfind
      rfl
  refine ⟨current, htoken, rfl, ?_, ?_, ⟨rfl, rfl, rfl, fun n v hv => ?_⟩, ?_⟩
  · show tables.locks.rows = _
    rw [hlocks]
    rfl
  · show tables.locks.next = _
    rw [hlocks]
    rfl
  · exact (workspaceOf_increment hinc n).trans hv
  · have hns' : current.namespaceId = ns.id := by rw [(requireSameRoot_ok hsame).1, hid]
    refine Newer.of_increment (e := db.toLockTables.updateLocks (fun l => decide (l.id = current.id))
      (retime ownerInfo timeoutAt) fun _ => ⟨rfl, rfl⟩) hget rfl (fun n hn => ?_) hinc
    refine filter_retime fun x hx hxid => ?_
    obtain rfl := Table.eq_of_key hx hcur hxid
    exact fun heq => hn (heq.symm.trans hns')

end

/-! #### `unlock` -/

/-- Every lock is about a resource of the workspace that its namespace belongs to. -/
def RootsOwned (db : LockDb) : Prop :=
  ∀ l ∈ db.locks.rows, ∃ w, db.workspaceOf l.namespaceId = some w ∧ RootIn db.tree w l.root

section

variable {db db' : LockDb} {entityType : EntityType} {entityId userId now : ℕ}

theorem RootIn.unique {t : Tree} {w w' : WorkspaceResourceScope} (h : RootIn t w (entityType.root entityId))
    (h' : RootIn t w' (entityType.root entityId)) : w = w' := by
  cases entityType with
  | file | folder =>
    obtain ⟨f, hf, hw⟩ := h
    obtain ⟨f', hf', hw'⟩ := h'
    obtain rfl := some.inj (hf.symm.trans hf')
    exact some.inj (hw.symm.trans hw')

theorem namespace_eq_of_workspaceOf {d : LockTables} {n : ℕ} {ns : ResourceLockNamespace}
    (hns : d.namespaces.get ns.id = some ns) (h : d.workspaceOf n = some ns.workspace) : n = ns.id := by
  obtain ⟨r, hr, hw⟩ := map_eq_some_iff.mp h
  have hfind := Namespaces.findByWorkspace_of_get hr
  rw [hw, Namespaces.findByWorkspace_of_get hns] at hfind
  cases hfind
  exact (Table.key_of_get hr).symm

theorem releasableBy_ok {locks : List ResourceLock} {gone : ResourceLock → Bool}
    (h : releasableBy db entityType entityId userId locks = .ok gone) {l : ResourceLock} (hl : gone l) :
    rootedOn entityType entityId l ∧ locks ≠ [] := by
  unfold releasableBy at h
  by_cases hnil : locks = []
  · rw [if_pos hnil] at h
    cases h
    cases hl
  · rw [if_neg hnil] at h
    obtain ⟨owner, -, h⟩ := bind_ok h
    split_ifs at h
    · cases h
      exact ⟨hl, hnil⟩
    · cases h
      exact ⟨(Bool.and_eq_true_iff.mp hl).1, hnil⟩

theorem unlock_ok (h : unlock db entityType entityId userId now = .ok db') :
    Released db db' ∧ (RootsOwned db → Newer db.toLockTables db'.toLockTables) := by
  obtain ⟨target, htarget, h⟩ := bind_ok h
  obtain ⟨⟨ns, db1⟩, hns, h⟩ := bind_ok h
  obtain ⟨⟨⟩, hroot, h⟩ := bind_ok h
  obtain ⟨gone, hgone, h⟩ := bind_ok h
  obtain ⟨tables, hbump, h⟩ := bind_ok h
  cases h
  obtain ⟨hget, hws, hlocks, hframe, hnewer⟩ := lockTargetNamespace_ok hns
  -- the two delete statements are one
  let p : ResourceLock → Bool := fun l => rootedOn entityType entityId l && l.expired now || gone l
  have hboth : ((db1.toLockTables.deleteLocks fun l => rootedOn entityType entityId l && l.expired now
      ).deleteLocks gone) = db1.toLockTables.deleteLocks p := by
    have hrows : ((db1.locks.rows.filter fun l => !(rootedOn entityType entityId l && l.expired now)).filter
        fun l => !gone l) = db1.locks.rows.filter fun l => !p l := by
      rw [List.filter_filter]
      refine filter_congr fun l _ => ?_
      simp [p, Bool.and_comm]
    have heq : ((db1.locks.deleteRows fun l => rootedOn entityType entityId l && l.expired now).deleteRows
        gone) = db1.locks.deleteRows p := SerialTable.eq_of_rows hrows rfl
    unfold deleteLocks
    simp only [heq]
  rw [hboth] at hbump
  have hrel := Released.of_delete hbump
  obtain ⟨q, hq⟩ := hrel.rows
  refine ⟨⟨⟨q, by rw [hq, hlocks]⟩, by rw [hrel.next, hlocks], hframe.trans hrel.frame⟩, fun hown => ?_⟩
  refine hnewer.trans (.of_delete hget (fun x hx hpx => ?_) (fun hch x hx => ?_) hbump)
  · -- a lock on the entity is in the namespace of the entity's workspace
    rw [hlocks] at hx
    obtain ⟨v, hv, hvroot⟩ := hown x hx
    have hxroot : x.root = entityType.root entityId := by
      rcases Bool.or_eq_true_iff.mp hpx with hstale | hrest
      · exact of_decide_eq_true (Bool.and_eq_true_iff.mp hstale).1
      · exact of_decide_eq_true (releasableBy_ok hgone hrest).1
    have hin := lockAndRevalidateTarget_ok hroot
    rw [(resolveEntityTarget_ok htarget).1, hframe.tree, ← hws] at hin
    rw [hxroot] at hvroot
    obtain rfl := hvroot.unique hin
    exact namespace_eq_of_workspaceOf hget (hframe.workspaces _ _ hv)
  · simp only [Bool.or_eq_false_iff, decide_eq_false_iff_not, not_not] at hch
    have hstale := affected_eq_zero hch.1 x hx
    have hkeep : gone x = false := by
      by_contra hgx
      exact (releasableBy_ok hgone (by simpa using hgx)).2 hch.2
    show (_ && _ || gone x) = false
    rw [hstale, hkeep]
    rfl

end

end AsterDrive.Locks
