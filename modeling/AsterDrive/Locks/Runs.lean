import AsterDrive.Lib.Interleave
import AsterDrive.Locks.Moves
import AsterDrive.Webdav.LockSystem

/-!
# Runs — every transaction that touches the locks of the workspaces, in any order

One step is one committed transaction: REST and WOPI locks, LOCK through any mount, the lock of a
folder-tree task, release, refresh and replacement, cleanup, renames and moves; or the clock goes on.
A transaction that is refused changes nothing and is no step.

`step_effect` says what a step can do to the lock rows in five cases; the invariants of runs are proved
from it.
-/

namespace AsterDrive.Locks.Runs

open Db Files Interleave Webdav

structure State where
  db : LockDb
  now : ℕ

/-- A transaction with its arguments; tokens are drawn by whoever acquires, and a `snapshot` is a row as
it was read some time before. -/
inductive Act
  /-- `set_lock` of files and folders -/
  | lock (entityType : EntityType) (entityId actorUserId : ℕ) (token : String)
  /-- `create_wopi_lock` -/
  | wopiLock (fileId actorUserId : ℕ) (appKey value : String) (ttl : ℕ) (token : String)
  /-- `DbLockSystem::lock` -/
  | davLock (request : LockRequest) (prepared : Option PreparedEmptyFile) (token : String)
  /-- `acquire` by a folder-tree task, with the path that it resolved before -/
  | treeLock (workspace : WorkspaceResourceScope) (folderId : ℕ) (marker path token : String)
  | unlock (entityType : EntityType) (entityId userId : ℕ)
  /-- `DbLockSystem::unlock` -/
  | davUnlock (path token : String)
  /-- `unlock_by_token_on` and `force_unlock` -/
  | release (snapshot : ResourceLock) (selector : LockSelector)
  /-- `DbLockSystem::refresh` -/
  | davRefresh (path token : String) (timeout : Option ℕ)
  /-- `refresh_lock_model` -/
  | wopiRefresh (snapshot : ResourceLock) (token : String) (ttl : ℕ)
  /-- `replace_wopi_lock_model` -/
  | wopiReplace (snapshot : ResourceLock) (token appKey value : String) (ttl : ℕ)
  /-- `cleanup_expired`, in one namespace -/
  | cleanup (namespaceId cutoff : ℕ)
  | updateFolder (scope : WorkspaceStorageScope) (id : ℕ) (name : Option String) (parentId : NullablePatch ℕ)
  | updateFile (scope : WorkspaceStorageScope) (snapshot : File) (name : Option String) (folderId : NullablePatch ℕ)
  | batchMove (scope : WorkspaceStorageScope) (files : List File) (folders : List Folder) (target : Option ℕ)
  | advance (by' : ℕ)

/-- What a folder-tree task acquires. -/
def treeCommand (workspace : WorkspaceResourceScope) (folderId : ℕ) (marker path : String) : LockAcquireCommand where
  target := { workspace, root := .folder folderId, depth := .infinity }
  mode := .exclusive
  origin := .product
  holderUserId := none
  ownerInfo := some (.text marker)
  timeout := none
  presentationPath := some path

/-- The state after a transaction that returns a row. -/
def State.commitRow (s : State) {ε : Type} : Except ε (ResourceLock × LockDb) → Option State
  | .ok (_, db) => some { s with db }
  | .error _ => none

def State.commit (s : State) {ε : Type} : Except ε LockDb → Option State
  | .ok db => some { s with db }
  | .error _ => none

section

variable (backend : DbBackend) (normalizeName : String → String) (indexRefuses : Tree → Bool)

def apply (s : State) : Act → Option State
  | .lock entityType entityId actorUserId token =>
    s.commitRow (Locks.lock s.db entityType entityId (some actorUserId) none none token s.now)
  | .wopiLock fileId actorUserId appKey value ttl token =>
    s.commitRow (Locks.lock s.db .file fileId (some actorUserId) (some (.wopi appKey value)) (some ttl) token s.now)
  | .davLock request prepared token =>
    s.commitRow (Webdav.davLock backend normalizeName s.db request prepared token s.now)
  | .treeLock workspace folderId marker path token =>
    s.commitRow (acquireOn s.db (treeCommand workspace folderId marker path) token s.now)
  | .unlock entityType entityId userId => s.commit (Locks.unlock s.db entityType entityId userId s.now)
  | .davUnlock path token => s.commit (Webdav.davUnlock s.db path token)
  | .release snapshot selector => s.commitRow (releaseSnapshotOn s.db snapshot selector)
  | .davRefresh path token timeout => s.commitRow (Webdav.davRefresh s.db path token timeout s.now)
  | .wopiRefresh snapshot token ttl => s.commitRow (refreshByTokenOn s.db snapshot token (some (s.now + ttl)))
  | .wopiReplace snapshot token appKey value ttl =>
    s.commitRow (replaceOwnerInfoAndTimeoutByTokenOn s.db snapshot token (.wopi appKey value) (some (s.now + ttl)))
  | .cleanup namespaceId cutoff =>
    -- the cutoff is an earlier reading of the clock
    if cutoff ≤ s.now then s.commit (cleanupNamespace s.db namespaceId cutoff) else none
  | .updateFolder scope id name parentId =>
    s.commit (updateFolderInScope normalizeName indexRefuses s.db scope id name parentId s.now)
  | .updateFile scope snapshot name folderId =>
    s.commit (updateFileInScope normalizeName indexRefuses s.db scope snapshot name folderId s.now)
  | .batchMove scope files folders target =>
    s.commit (batchMoveInScope indexRefuses s.db scope files folders target s.now)
  | .advance time => some { s with now := s.now + time }

def system : System State Unit Act where
  step a s _ := (apply backend normalizeName indexRefuses s a).map fun s' => (s', ())

/-- The acquisition that a transaction comes to: the namespace, the database as it is by then, and what
is requested. -/
def requested (s : State) : Act → Option (ResourceLockNamespace × LockDb × LockAcquireCommand)
  | .lock entityType entityId actorUserId _ =>
    (prepareLock s.db entityType entityId (some actorUserId) none none).toOption
  | .wopiLock fileId actorUserId appKey value ttl _ =>
    (prepareLock s.db .file fileId (some actorUserId) (some (.wopi appKey value)) (some ttl)).toOption
  | .davLock request prepared _ =>
    (prepareDavLock backend normalizeName s.db request prepared s.now).toOption
  | .treeLock workspace folderId marker path _ =>
    (prepareAcquire s.db (treeCommand workspace folderId marker path)).toOption
  | _ => none

/-- The lock that a refresh or a replacement selects: by its token alone. -/
def selected (s : State) : Act → Option ResourceLock
  | .davRefresh _ token _ => s.db.findByToken token
  | .wopiRefresh _ token _ => s.db.findByToken token
  | .wopiReplace _ token _ _ _ => s.db.findByToken token
  | _ => none

/-- A workspace state at rest. -/
def start (s : State) : Config State Unit := ⟨s, fun _ => ()⟩

end

/-! ### What a step does -/

/-- The five kinds of steps. -/
inductive Effect (backend : DbBackend) (normalizeName : String → String) (s : State) (a : Act) : State → Prop
  | acquired {ns : ResourceLockNamespace} {db₁ db' : LockDb} {command : LockAcquireCommand} {token : String}
      {row : ResourceLock} (hreq : requested backend normalizeName s a = some (ns, db₁, command))
      (hprep : Prepared s.db db₁) (hacq : Acquired db₁ ns command token s.now row db') :
      Effect backend normalizeName s a ⟨db', s.now⟩
  | released {db' : LockDb} (h : Released s.db db') : Effect backend normalizeName s a ⟨db', s.now⟩
  | retimed {db' : LockDb} {current : ResourceLock} {ownerInfo : Option ResourceLockOwnerInfo}
      {timeoutAt : Option ℕ} (hsel : selected s a = some current)
      (hrows : db'.locks.rows = s.db.locks.rows.map fun l =>
        if decide (l.id = current.id) then retime ownerInfo timeoutAt l else l)
      (hnext : db'.locks.next = s.db.locks.next) (hframe : Frame s.db db') :
      Effect backend normalizeName s a ⟨db', s.now⟩
  | moved {db' : LockDb} (h : Moved s.db db' s.now) : Effect backend normalizeName s a ⟨db', s.now⟩
  | advanced {later : ℕ} (h : s.now ≤ later) : Effect backend normalizeName s a ⟨s.db, later⟩

section

variable {backend : DbBackend} {normalizeName : String → String} {indexRefuses : Tree → Bool} {s s' : State} {a : Act}

theorem commitRow_eq_some {ε : Type} {x : Except ε (ResourceLock × LockDb)}
    (h : s.commitRow x = some s') : ∃ row db', x = .ok (row, db') ∧ s' = ⟨db', s.now⟩ := by
  cases x with
  | error e => simp [State.commitRow] at h
  | ok r =>
    obtain ⟨row, db'⟩ := r
    exact ⟨row, db', rfl, (Option.some.inj h).symm⟩

theorem commit_eq_some {ε : Type} {x : Except ε LockDb} (h : s.commit x = some s') :
    ∃ db', x = .ok db' ∧ s' = ⟨db', s.now⟩ := by
  cases x with
  | error e => simp [State.commit] at h
  | ok db' => exact ⟨db', rfl, (Option.some.inj h).symm⟩

theorem lock_effect {entityType : EntityType} {entityId : ℕ} {ownerId timeout : Option ℕ}
    {ownerInfo : Option ResourceLockOwnerInfo} {token : String}
    (hreq : requested backend normalizeName s a =
      (prepareLock s.db entityType entityId ownerId ownerInfo timeout).toOption)
    (h : s.commitRow (Locks.lock s.db entityType entityId ownerId ownerInfo timeout token s.now) = some s') :
    Effect backend normalizeName s a s' := by
  obtain ⟨row, db', hlock, rfl⟩ := commitRow_eq_some h
  obtain ⟨⟨ns, db₁, command⟩, hprep, hacq⟩ := bind_ok hlock
  obtain ⟨-, hget, hlocks, hframe, -⟩ := prepareLock_ok hprep
  rw [hprep] at hreq
  exact .acquired hreq (.of_frame hlocks hframe) (acquireAfterNamespaceLockOn_ok hget hacq)

theorem retime_effect {snapshot row : ResourceLock} {token message : String} {db' : LockDb}
    {ownerInfo : Option ResourceLockOwnerInfo} {timeoutAt : Option ℕ}
    (hsel : selected s a = s.db.findByToken token)
    (h : retimeSnapshotOn s.db snapshot token ownerInfo timeoutAt message = .ok (row, db')) :
    Effect backend normalizeName s a ⟨db', s.now⟩ := by
  obtain ⟨current, hfind, -, hrows, hnext, hframe, -⟩ := retimeSnapshotOn_ok h
  exact .retimed (hsel.trans hfind) hrows hnext hframe

theorem selected_mem {current : ResourceLock} (h : selected s a = some current) : current ∈ s.db.locks.rows := by
  cases a with
  | davRefresh path token timeout | wopiRefresh snapshot token ttl | wopiReplace snapshot token appKey value ttl =>
    exact (LockTables.findByToken_eq_some h).1
  | _ => cases h

theorem step_effect (h : apply backend normalizeName indexRefuses s a = some s') :
    Effect backend normalizeName s a s' := by
  cases a with
  | lock entityType entityId actorUserId token | wopiLock fileId actorUserId appKey value ttl token =>
    exact lock_effect rfl h
  | davLock request prepared token =>
    obtain ⟨row, db', hlock, rfl⟩ := commitRow_eq_some h
    obtain ⟨⟨ns, db₁, command⟩, hprep, hacq⟩ := bind_ok hlock
    obtain ⟨hprepared, hget, -⟩ := prepareDavLock_ok hprep
    have hreq : requested backend normalizeName s (.davLock request prepared token) = some (ns, db₁, command) := by
      simp [requested, hprep, Except.toOption]
    exact .acquired hreq hprepared (acquireAfterNamespaceLockOn_ok hget (liftProduct_ok.mp hacq))
  | treeLock workspace folderId marker path token =>
    obtain ⟨row, db', hlock, rfl⟩ := commitRow_eq_some h
    obtain ⟨⟨ns, db₁, command⟩, hprep, hacq⟩ := bind_ok hlock
    obtain ⟨-, hget, hlocks, hframe, -⟩ := prepareAcquire_ok hprep
    have hreq : requested backend normalizeName s (.treeLock workspace folderId marker path token) =
        some (ns, db₁, command) := by
      simp [requested, hprep, Except.toOption]
    exact .acquired hreq (.of_frame hlocks hframe) (acquireAfterNamespaceLockOn_ok hget hacq)
  | unlock entityType entityId userId =>
    obtain ⟨db', hunlock, rfl⟩ := commit_eq_some h
    exact .released (unlock_ok hunlock).1
  | davUnlock path token =>
    obtain ⟨db', hunlock, rfl⟩ := commit_eq_some h
    obtain ⟨snapshot, -, hrelease⟩ := bind_ok hunlock
    split at hrelease
    · rename_i row db₁ hrel
      cases hrelease
      exact .released (releaseSnapshotOn_ok hrel).1
    · cases hrelease
    · cases hrelease
  | release snapshot selector =>
    obtain ⟨row, db', hrel, rfl⟩ := commitRow_eq_some h
    exact .released (releaseSnapshotOn_ok hrel).1
  | davRefresh path token timeout =>
    obtain ⟨row, db', hrefresh, rfl⟩ := commitRow_eq_some h
    obtain ⟨current, -, hretime⟩ := bind_ok hrefresh
    split at hretime
    · rename_i r hr
      cases hretime
      exact retime_effect rfl hr
    · cases hretime
  | wopiRefresh snapshot token ttl =>
    obtain ⟨row, db', hrefresh, rfl⟩ := commitRow_eq_some h
    exact retime_effect rfl hrefresh
  | wopiReplace snapshot token appKey value ttl =>
    obtain ⟨row, db', hreplace, rfl⟩ := commitRow_eq_some h
    exact retime_effect rfl hreplace
  | cleanup namespaceId cutoff =>
    simp only [apply] at h
    split_ifs at h
    obtain ⟨db', hclean, rfl⟩ := commit_eq_some h
    exact .released (cleanupNamespace_ok hclean).1
  | updateFolder scope id name parentId =>
    obtain ⟨db', hupdate, rfl⟩ := commit_eq_some h
    exact .moved (updateFolderInScope_moved hupdate)
  | updateFile scope snapshot name folderId =>
    obtain ⟨db', hupdate, rfl⟩ := commit_eq_some h
    exact .moved (updateFileInScope_moved hupdate)
  | batchMove scope files folders target =>
    obtain ⟨db', hmove, rfl⟩ := commit_eq_some h
    exact .moved (batchMoveInScope_moved hmove)
  | advance time =>
    cases h
    exact .advanced (Nat.le_add_right _ _)

theorem apply_of_fire {c c' : Config State Unit} {i : ℕ}
    (h : (system backend normalizeName indexRefuses).fire c i a = some c') :
    apply backend normalizeName indexRefuses c.shared a = some c'.shared := by
  obtain ⟨s', p', hstep, rfl⟩ := fire_eq_some h
  obtain ⟨s'', happly, hpair⟩ := Option.map_eq_some_iff.mp hstep
  cases hpair
  exact happly

end

end AsterDrive.Locks.Runs
