import AsterDrive.Locks.Enforcement
import AsterDrive.Webdav.PathResolver

/-!
# LockSystem — WebDAV locks over the lock tables

`webdav/backend/lock.rs`. A LOCK resolves its path below the root of the mount, counts the locks of its
holder, makes an empty file where nothing is, and acquires with the path of the request as presentation
path. The protocol's own evaluator (`check`, `revalidateMutationLocks`) reads these paths: it selects
rows by path, and of the locks that share a path it asks for one token.

The `LIKE` behind `starts_with` may match more rows than the texts that start with the prefix; all its
callers filter what they get.
-/

namespace AsterDrive.Webdav

open Db Files Locks List

/-! ### Paths -/

/-- `normalize_path`. -/
def normalizePath (path : String) : String := if path = "" then "/" else path

/-- The collections that the segments lead through, behind `current`. -/
def collectionsFrom (current : String) : List String → List String
  | [] => []
  | segment :: rest => (current ++ segment ++ "/") :: collectionsFrom (current ++ segment ++ "/") rest

/-- `path_ancestors`. -/
def pathAncestors (path : String) : List String :=
  "/" :: collectionsFrom "/" (pathSegments path) ++
    if path ≠ "/" ∧ ¬ endsWithSlash path then [path] else []

/-- `path_is_ancestor`, of the WebDAV backend. -/
def pathIsAncestor (parent child : String) : Bool :=
  if parent = child then false
  else if parent = "/" then startsWith child "/"
  else if endsWithSlash parent then startsWith child parent
  else startsWith child (parent ++ "/")

/-- `lock_paths_overlap`. -/
def lockPathsOverlap (existingPath : String) (existingDeep : Bool) (requestedPath : String)
    (requestedDeep : Bool) : Bool :=
  if existingPath = requestedPath then true
  else if pathIsAncestor existingPath requestedPath then existingDeep
  else if pathIsAncestor requestedPath existingPath then requestedDeep
  else false

/-- `unlock_request_targets_lock_scope`. -/
def unlockRequestTargetsLockScope (lockPath : String) (lockDeep : Bool) (requestPath : String) : Bool :=
  decide (lockPath = requestPath) || lockDeep && pathIsAncestor lockPath requestPath

/-! ### The evaluator of the protocol -/

/-- `DavLockError`; a conflict names the path of the lock. -/
inductive DavLockError
  | conflict (path : String)
  | tokenMismatch | parentMissing | limitExceeded | notFound | backend
  deriving DecidableEq

/-- The rows that the two queries find, merged by id, and of these the ones that overlap. -/
def overlappingLocks (d : LockTables) (namespaceId : ℕ) (path : String) (deep withPrefix : Bool) :
    List ResourceLock :=
  (d.findAllByNamespace namespaceId).filter fun l =>
    (l.lockrootPath.any fun q => decide (q ∈ pathAncestors path) || withPrefix && startsWith q path) &&
      lockPathsOverlap l.path l.deep path deep

/-- `find_overlapping_locks`. -/
def findOverlappingLocks (d : LockTables) (namespaceId : ℕ) (path : String) (deep : Bool) :
    List ResourceLock := overlappingLocks d namespaceId path deep true

/-- The loop over the overlapping locks: the first lock root for which no token was submitted. `before`
are the locks already passed; `submitted` are the tokens that the request gives for a path. -/
def unsatisfiedRoot (submitted : String → List String) (now : ℕ) (all : List ResourceLock) :
    List ResourceLock → List ResourceLock → Option ResourceLock
  | _, [] => none
  | before, l :: rest =>
    if l.expired now || before.any fun q => decide (q.path = l.path) && !q.expired now then
      unsatisfiedRoot submitted now all (before ++ [l]) rest
    else if all.any fun c => decide (c.path = l.path) && !c.expired now && decide (c.token ∈ submitted l.path) then
      unsatisfiedRoot submitted now all (before ++ [l]) rest
    else some l

/-- No lock root is left without a token. -/
def requireSatisfied (submitted : String → List String) (now : ℕ) (all : List ResourceLock) :
    Except DavLockError Unit :=
  match unsatisfiedRoot submitted now all [] all with
  | none => .ok ()
  | some l => .error (.conflict l.path)

/-- `check`. -/
def check (d : LockTables) (scope : WorkspaceStorageScope) (path : String) (deep : Bool)
    (submittedTokens : List String) (now : ℕ) : Except DavLockError Unit :=
  let path := normalizePath path
  match d.namespaces.findByWorkspace scope.resource with
  | none => .ok ()
  | some ns => requireSatisfied (fun _ => submittedTokens) now (overlappingLocks d ns.id path deep deep)

/-- `revalidate_mutation_locks`; `submitted` is what the `If` header says about the href of a lock root. -/
def revalidateMutationLocks (d : LockTables) (namespaceId : ℕ) (path : String) (deep : Bool)
    (submitted : String → List String) (now : ℕ) : Except DavLockError Unit :=
  let path := normalizePath path
  requireSatisfied submitted now (findOverlappingLocks d namespaceId path deep)

/-- Every overlapping lock that has not expired shares its path with one whose token was submitted. -/
def RootsSatisfied (submitted : String → List String) (now : ℕ) (all : List ResourceLock) : Prop :=
  ∀ l ∈ all, l.expired now = false → ∃ c ∈ all, c.path = l.path ∧ c.expired now = false ∧ c.token ∈ submitted l.path

section

variable {submitted : String → List String} {now : ℕ} {all before rest : List ResourceLock}

theorem unsatisfiedRoot_eq_none (hsplit : all = before ++ rest) (hbefore : ∀ l ∈ before, l.expired now = false →
      ∃ c ∈ all, c.path = l.path ∧ c.expired now = false ∧ c.token ∈ submitted l.path) :
    unsatisfiedRoot submitted now all before rest = none ↔ RootsSatisfied submitted now all := by
  induction rest generalizing before with
  | nil =>
    rw [append_nil] at hsplit
    subst hsplit
    exact ⟨fun _ => hbefore, fun _ => rfl⟩
  | cons l rest ih =>
    have hsplit' : all = (before ++ [l]) ++ rest := by rw [hsplit, append_cons]
    have hl : l ∈ all := by
      rw [hsplit]
      exact mem_append_right _ mem_cons_self
    have hpass : (l.expired now = false →
        ∃ c ∈ all, c.path = l.path ∧ c.expired now = false ∧ c.token ∈ submitted l.path) →
        ∀ x ∈ before ++ [l], x.expired now = false →
          ∃ c ∈ all, c.path = x.path ∧ c.expired now = false ∧ c.token ∈ submitted x.path := by
      intro hsat x hx
      rcases mem_append.mp hx with hx | hx
      · exact hbefore x hx
      · obtain rfl := mem_singleton.mp hx
        exact hsat
    rw [unsatisfiedRoot]
    split_ifs with hskip hany
    · -- expired, or one with the same path was passed before
      refine ih hsplit' (hpass fun hlive => ?_)
      rcases Bool.or_eq_true_iff.mp hskip with hexp | hprev
      · rw [hlive] at hexp
        cases hexp
      · obtain ⟨q, hq, hqprop⟩ := any_eq_true.mp hprev
        obtain ⟨hqpath, hqlive⟩ := Bool.and_eq_true_iff.mp hqprop
        have hpath := of_decide_eq_true hqpath
        have hqsat := hbefore q hq (by simpa using hqlive)
        rwa [hpath] at hqsat
    · refine ih hsplit' (hpass fun _ => ?_)
      obtain ⟨c, hc, hcprop⟩ := any_eq_true.mp hany
      simp only [Bool.and_eq_true, decide_eq_true_eq, Bool.not_eq_true'] at hcprop
      exact ⟨c, hc, hcprop.1.1, hcprop.1.2, hcprop.2⟩
    · constructor
      · intro h
        cases h
      · intro hall
        have hlive : l.expired now = false := by
          by_contra hexp
          exact hskip (by simp [Bool.eq_true_of_not_eq_false hexp])
        obtain ⟨c, hc, hpath, hclive, htoken⟩ := hall l hl hlive
        exact absurd (any_eq_true.mpr ⟨c, hc, by simp [hpath, hclive, htoken]⟩) hany

theorem RootsSatisfied.congr {other : List ResourceLock}
    (hmem : ∀ l : ResourceLock, l.expired now = false → (l ∈ all ↔ l ∈ other))
    (h : RootsSatisfied submitted now all) : RootsSatisfied submitted now other := by
  intro l hl hlive
  obtain ⟨c, hc, hrest⟩ := h l ((hmem l hlive).mpr hl) hlive
  exact ⟨c, (hmem c hrest.2.1).mp hc, hrest⟩

theorem requireSatisfied_ok : requireSatisfied submitted now all = .ok () ↔ RootsSatisfied submitted now all := by
  have hloop : unsatisfiedRoot submitted now all [] all = none ↔ RootsSatisfied submitted now all :=
    unsatisfiedRoot_eq_none rfl (by simp)
  rw [← hloop, requireSatisfied]
  cases unsatisfiedRoot submitted now all [] all <;> simp

end

/-! ### LOCK -/

/-- `LockAcquireTransactionError`. -/
inductive LockAcquireTransactionError
  | product (error : AsterError)
  | limitExceeded
  | targetBecameMissing

/-- An error of the product's functions. -/
def liftProduct {α : Type} : Except AsterError α → Except LockAcquireTransactionError α
  | .ok a => .ok a
  | .error e => .error (.product e)

/-- `actor_user_id()`. -/
def actorUserId : WorkspaceStorageScope → ℕ
  | .personal userId => userId
  | .team _ actorUserId => actorUserId

/-- `count_active_by_owner`. -/
def countActiveByOwner (d : LockTables) (ownerId now : ℕ) : ℕ :=
  d.locks.rows.countP fun l => decide (l.holderUserId = some ownerId) && !l.expired now

/-- `ensure_lock_quota`. -/
def ensureLockQuota (db : LockDb) (ownerId maxActiveLocks now : ℕ) :
    Except LockAcquireTransactionError Unit :=
  if ownerId ∉ db.users then .error (.product (internalError "failed to enforce WebDAV lock quota"))
  else if maxActiveLocks ≤ countActiveByOwner db.toLockTables ownerId now then .error .limitExceeded
  else .ok ()

/-- `LockPathTarget`. -/
inductive LockPathTarget
  | entity (entityType : EntityType) (entityId : ℕ)
  | root
  | missing

/-- The empty file that a LOCK of an unmapped path makes, prepared before the transaction. -/
structure PreparedEmptyFile where
  folderId : Option ℕ
  filename : String
  blobId : ℕ
  mimeType : String

/-- The row of the new file. -/
def PreparedEmptyFile.row (p : PreparedEmptyFile) (scope : WorkspaceStorageScope) (now id : ℕ) : File where
  id := id
  ownerUserId := scope.ownerUserId
  teamId := scope.teamId
  folderId := p.folderId
  name := p.filename
  blobId := p.blobId
  size := 0
  mimeType := p.mimeType
  updatedAt := now

section Lock

variable (backend : DbBackend) (normalizeName : String → String)

/-- `resolve_path_to_entity`. -/
def resolvePathToEntity (t : Tree) (scope : WorkspaceStorageScope) (rootFolderId : Option ℕ) (path : String) :
    Except FsError LockPathTarget :=
  match resolvePathInScope backend normalizeName t scope rootFolderId path with
  | .ok (.file f) => .ok (.entity .file f.id)
  | .ok (.folder f) => .ok (.entity .folder f.id)
  | .ok .root => .ok .root
  | .error .notFound => .ok .missing
  | .error e => .error e

/-- `webdav_lock_target`. -/
def webdavLockTarget (scope : WorkspaceStorageScope) (rootFolderId : Option ℕ) (resolved : LockPathTarget)
    (deep : Bool) : LockTarget where
  workspace := scope.resource
  root :=
    match resolved with
    | .entity entityType entityId => entityType.root entityId
    | .root => rootFolderId.elim .workspaceRoot .folder
    | .missing => .workspaceRoot
  depth := if deep then .infinity else .resource

/-- `create_file_on` with the exact name; the unique index refuses a name that is taken. -/
def createFileOn (db : LockDb) (scope : WorkspaceStorageScope) (p : PreparedEmptyFile) (now : ℕ) :
    Except AsterError (File × LockDb) :=
  if db.tree.files.rows.any fun f => fileMatchesScope f scope.resource && f.deletedAt.isNone &&
      decide (f.folderId = p.folderId) && decide (f.name = p.filename) then
    .error (duplicateNameError p.filename)
  else
    .ok (p.row scope now db.tree.files.next,
      { db with tree := { db.tree with files := db.tree.files.insert (p.row scope now) fun _ => rfl } })

/-- What is to be locked: the resource at the path, or a new empty file. -/
def prepareLockTarget (db : LockDb) (scope : WorkspaceStorageScope) (rootFolderId : Option ℕ) (path : String)
    (deep : Bool) (submittedLockTokens : List String) (prepared : Option PreparedEmptyFile) (now : ℕ) :
    Except LockAcquireTransactionError (LockTarget × LockDb) :=
  match resolvePathToEntity backend normalizeName db.tree scope rootFolderId path with
  | .error _ => .error (.product (internalError "failed to re-resolve WebDAV lock target"))
  | .ok .missing =>
    match prepared with
    | none => .error .targetBecameMissing
    | some prepared => do
      liftProduct (findWorkspaceOwner db scope.resource)
      let db ← liftProduct (enforceCollectionMembershipMutationOn db scope.resource prepared.folderId
        { holderUserId := none, tokens := submittedLockTokens } now)
      let (created, db) ← liftProduct (createFileOn db scope prepared now)
      pure ({ workspace := scope.resource, root := .file created.id
              depth := if deep then .infinity else .resource }, db)
  | .ok resolved => .ok (webdavLockTarget scope rootFolderId resolved deep, db)

/-- `DavLockAcquireRequest`, and what the lock system knows about the request. -/
structure LockRequest where
  scope : WorkspaceStorageScope
  rootFolderId : Option ℕ
  path : String
  ownerInfo : Option ResourceLockOwnerInfo
  timeout : Option ℕ
  shared : Bool
  deep : Bool
  submittedLockTokens : List String
  maxActiveLocks : ℕ

/-- The transaction of `DbLockSystem::lock` up to the acquisition. -/
def prepareDavLock (db : LockDb) (r : LockRequest) (prepared : Option PreparedEmptyFile) (now : ℕ) :
    Except LockAcquireTransactionError (ResourceLockNamespace × LockDb × LockAcquireCommand) := do
  let (ns, db) := lockWorkspaceForMutationOn db r.scope.resource
  ensureLockQuota db (actorUserId r.scope) r.maxActiveLocks now
  let (target, db) ← prepareLockTarget backend normalizeName db r.scope r.rootFolderId r.path r.deep
    r.submittedLockTokens prepared now
  pure (ns, db,
    { target, mode := if r.shared then .shared else .exclusive, origin := .webDav
      holderUserId := some (actorUserId r.scope), ownerInfo := r.ownerInfo, timeout := r.timeout
      presentationPath := some (normalizePath r.path) })

/-- The transaction of `DbLockSystem::lock`. -/
def davLock (db : LockDb) (r : LockRequest) (prepared : Option PreparedEmptyFile) (token : String) (now : ℕ) :
    Except LockAcquireTransactionError (ResourceLock × LockDb) := do
  let (ns, db, command) ← prepareDavLock backend normalizeName db r prepared now
  liftProduct (acquireAfterNamespaceLockOn db ns command token now)

end Lock

/-! #### What LOCK has done and checked before it acquires -/

/-- Nothing was written but the namespace row and, for LOCK, a new file. -/
structure Prepared (db db₁ : LockDb) : Prop where
  locks : db₁.locks = db.locks
  workspaces : ∀ n w, db.workspaceOf n = some w → db₁.workspaceOf n = some w
  folders : db₁.tree.folders = db.tree.folders
  files : ∀ i f, db.tree.files.get i = some f → db₁.tree.files.get i = some f

section

variable {backend : DbBackend} {normalizeName : String → String} {db db₁ db₂ : LockDb} {now : ℕ}

theorem Prepared.of_frame (hlocks : db₁.locks = db.locks) (h : Frame db db₁) : Prepared db db₁ where
  locks := hlocks
  workspaces := h.workspaces
  folders := by rw [h.tree]
  files i f hf := by rwa [h.tree]

theorem Prepared.trans (h : Prepared db db₁) (h' : Prepared db₁ db₂) : Prepared db db₂ where
  locks := h'.locks.trans h.locks
  workspaces n w hw := h'.workspaces n w (h.workspaces n w hw)
  folders := h'.folders.trans h.folders
  files i f hf := h'.files i f (h.files i f hf)

theorem liftProduct_ok {α : Type} {x : Except AsterError α} {a : α} : liftProduct x = .ok a ↔ x = .ok a := by
  cases x <;> simp [liftProduct]

theorem createFileOn_prepared {scope : WorkspaceStorageScope} {p : PreparedEmptyFile} {created : File}
    (h : createFileOn db scope p now = .ok (created, db₁)) :
    Prepared db db₁ ∧ db₁.namespaces = db.namespaces := by
  unfold createFileOn at h
  split_ifs at h
  cases h
  refine ⟨⟨rfl, fun _ _ hw => hw, rfl, fun i f hf => ?_⟩, rfl⟩
  have hid : ∀ n, (p.row scope now n).id = n := fun _ => rfl
  have hnew : i ≠ db.tree.files.next := (SerialTable.lt_next_of_get hf).ne
  exact (SerialTable.get_insert db.tree.files hid i).trans (by rw [if_neg hnew.symm, hf])

theorem prepareLockTarget_prepared {scope : WorkspaceStorageScope} {rootFolderId : Option ℕ} {path : String}
    {deep : Bool} {tokens : List String} {prepared : Option PreparedEmptyFile} {target : LockTarget}
    (h : prepareLockTarget backend normalizeName db scope rootFolderId path deep tokens prepared now =
      .ok (target, db₁)) :
    Prepared db db₁ ∧ ∀ n r, db.namespaces.get n = some r → db₁.namespaces.get n = some r := by
  unfold prepareLockTarget at h
  split at h
  · cases h
  · split at h
    · cases h
    · obtain ⟨⟨⟩, -, h⟩ := bind_ok h
      obtain ⟨dbm, hmember, h⟩ := bind_ok h
      obtain ⟨⟨created, dbc⟩, hcreate, h⟩ := bind_ok h
      cases h
      have hu := (enforceMembership_ok ((liftProduct_ok).mp hmember)).1
      obtain ⟨hcreated, hns⟩ := createFileOn_prepared ((liftProduct_ok).mp hcreate)
      refine ⟨(Prepared.of_frame hu.locks hu.frame).trans hcreated, fun n r hr => ?_⟩
      rw [hns]
      exact hu.namespaces n r hr
  · cases h
    have hu := Unmoved.refl db
    exact ⟨.of_frame hu.locks hu.frame, hu.namespaces⟩

theorem ensureLockQuota_ok {ownerId maxActiveLocks : ℕ} (h : ensureLockQuota db ownerId maxActiveLocks now = .ok ()) :
    countActiveByOwner db.toLockTables ownerId now < maxActiveLocks := by
  unfold ensureLockQuota at h
  split_ifs at h with huser hmax
  omega

theorem prepareDavLock_ok {r : LockRequest} {prepared : Option PreparedEmptyFile}
    {ns : ResourceLockNamespace} {command : LockAcquireCommand}
    (h : prepareDavLock backend normalizeName db r prepared now = .ok (ns, db₁, command)) :
    Prepared db db₁ ∧ db₁.namespaces.get ns.id = some ns ∧
      (command.holderUserId = some (actorUserId r.scope) ∧ command.origin = .webDav) ∧
      countActiveByOwner db.toLockTables (actorUserId r.scope) now < r.maxActiveLocks := by
  unfold prepareDavLock at h
  rcases hns : lockWorkspaceForMutationOn db r.scope.resource with ⟨ns₀, dbn⟩
  rw [hns] at h
  obtain ⟨⟨⟩, hquota, h⟩ := bind_ok h
  obtain ⟨⟨target, dbt⟩, htarget, h⟩ := bind_ok h
  obtain ⟨rfl, hrest⟩ := Prod.mk.inj (pure_ok_iff.mp h)
  cases hrest
  obtain ⟨hu, hget, -⟩ := lockWorkspaceForMutationOn_unmoved hns
  obtain ⟨hprep, hkeep⟩ := prepareLockTarget_prepared htarget
  have hcount := ensureLockQuota_ok hquota
  rw [countActiveByOwner, hu.locks] at hcount
  exact ⟨(Prepared.of_frame hu.locks hu.frame).trans hprep, hkeep _ _ hget, ⟨rfl, rfl⟩, hcount⟩

end

/-! ### UNLOCK and refresh -/

/-- The lock of a token, if the request is about its scope. -/
def lockForRequest (d : LockTables) (path token : String) : Except DavLockError ResourceLock :=
  match d.findByToken token with
  | none => .error .tokenMismatch
  | some l =>
    if unlockRequestTargetsLockScope l.path l.deep (normalizePath path) then .ok l else .error .tokenMismatch

/-- `DbLockSystem::unlock`. -/
def davUnlock (db : LockDb) (path token : String) : Except DavLockError LockDb := do
  let snapshot ← lockForRequest db.toLockTables path token
  match releaseSnapshotOn db snapshot (.token token) with
  | .ok (_, db) => .ok db
  | .error (.recordNotFound _) => .error .tokenMismatch
  | .error _ => .error .backend

/-- `DbLockSystem::refresh`. -/
def davRefresh (db : LockDb) (path token : String) (timeout : Option ℕ) (now : ℕ) :
    Except DavLockError (ResourceLock × LockDb) := do
  let current ← lockForRequest db.toLockTables path token
  match refreshByTokenOn db current token (timeout.map fun d => now + d) with
  | .ok r => .ok r
  | .error _ => .error .backend

end AsterDrive.Webdav
