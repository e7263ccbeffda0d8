import AsterDrive.Files.Tree

/-!
# Locks/Schema — the rows of the resource locks

`resource_locks` and `resource_lock_namespaces`. There is one namespace row per workspace; whoever
mutates the locks or the tree of a workspace holds it, and its `generation` counts the changes of the
workspace's lock rows. `LockTables` carries what the schema promises: one namespace row per workspace,
and no lock row without its namespace.

`Newer d d'` is what every writer keeps: the rows of a namespace change only together with its
generation, generations do not fall, and a namespace that is gone does not come back.
-/

namespace AsterDrive.Locks

open Db Files List Option Function

inductive LockDepth
  | resource | infinity
  deriving DecidableEq

inductive LockMode
  | exclusive | shared
  deriving DecidableEq

inductive LockOrigin
  | product | webDav | wopi
  deriving DecidableEq

/-- `LockRoot`: the columns `root_kind`, `root_folder_id` and `root_file_id` of a row. -/
inductive LockRoot
  | workspaceRoot
  | folder (folderId : ℕ)
  | file (fileId : ℕ)
  deriving DecidableEq

/-- `ResourceLockOwnerInfo`. -/
inductive ResourceLockOwnerInfo
  | wopi (appKey lock : String)
  | webdav (xml : String)
  | text (value : String)
  deriving DecidableEq

/-- `resource_lock::Model`. -/
structure ResourceLock where
  id : ℕ
  token : String
  namespaceId : ℕ
  root : LockRoot
  depth : LockDepth
  mode : LockMode
  origin : LockOrigin
  holderUserId : Option ℕ
  ownerInfo : Option ResourceLockOwnerInfo
  timeoutAt : Option ℕ
  lockrootPath : Option String
  deriving DecidableEq

namespace ResourceLock

/-- `path()`. -/
def path (l : ResourceLock) : String := l.lockrootPath.getD "/"

/-- `deep()`. -/
def deep (l : ResourceLock) : Bool := l.depth = .infinity

/-- `timeout_at.is_some_and(|expires_at| expires_at <= now)`. -/
def expired (l : ResourceLock) (now : ℕ) : Bool := l.timeoutAt.any fun t => t ≤ now

theorem expired_iff {l : ResourceLock} {now : ℕ} : l.expired now ↔ ∃ t, l.timeoutAt = some t ∧ t ≤ now := by
  unfold expired
  cases l.timeoutAt <;> simp

theorem expired_mono {l : ResourceLock} {now later : ℕ} (h : l.expired now) (hle : now ≤ later) :
    l.expired later := by
  obtain ⟨t, ht, hnow⟩ := (expired_iff).mp h
  exact (expired_iff).mpr ⟨t, ht, hnow.trans hle⟩

end ResourceLock

/-- `resource_lock_namespace::Model`. -/
structure ResourceLockNamespace where
  id : ℕ
  workspace : WorkspaceResourceScope
  generation : ℕ
  deriving DecidableEq

open ResourceLockNamespace

abbrev ResourceLocks := SerialTable ResourceLock.id

/-- Namespace rows; the unique index is on the workspace. -/
structure Namespaces extends SerialTable ResourceLockNamespace.id where
  oneEach : (rows.map workspace).Nodup

open Namespaces

namespace Namespaces

/-- `find_by_workspace`. -/
def findByWorkspace (t : Namespaces) (w : WorkspaceResourceScope) : Option ResourceLockNamespace :=
  t.rows.find? fun ns => ns.workspace = w

theorem findByWorkspace_eq_some {t : Namespaces} {w : WorkspaceResourceScope} {ns : ResourceLockNamespace}
    (h : t.findByWorkspace w = some ns) : t.get ns.id = some ns ∧ ns.workspace = w := by
  exact ⟨Table.get_of_mem (mem_of_find?_eq_some h), by simpa using find?_some h⟩

theorem findByWorkspace_eq_none {t : Namespaces} {w : WorkspaceResourceScope} :
    t.findByWorkspace w = none ↔ ∀ ns ∈ t.rows, ns.workspace ≠ w := by
  simp [findByWorkspace]

theorem findByWorkspace_of_get {t : Namespaces} {n : ℕ} {ns : ResourceLockNamespace}
    (h : t.get n = some ns) : t.findByWorkspace ns.workspace = some ns := by
  let byWorkspace : Table workspace := ⟨t.rows, t.oneEach⟩
  have hrow : ns ∈ t.rows := Table.mem_of_get h
  have hmem : ns ∈ byWorkspace.rows := hrow
  exact Table.get_of_mem hmem

/-- The row of a new namespace. -/
def newRow (w : WorkspaceResourceScope) (id : ℕ) : ResourceLockNamespace := { id, workspace := w, generation := 0 }

def insertRow (t : Namespaces) (w : WorkspaceResourceScope) (h : t.findByWorkspace w = none) : Namespaces where
  toSerialTable := t.toSerialTable.insert (newRow w) fun _ => rfl
  oneEach := by
    show ((t.rows ++ [newRow w t.next]).map workspace).Nodup
    rw [map_append, nodup_append]
    refine ⟨t.oneEach, by simp, ?_⟩
    rintro a ha b hb rfl
    obtain ⟨ns, hns, rfl⟩ := List.mem_map.mp ha
    exact (findByWorkspace_eq_none).mp h ns hns (by simpa [newRow] using hb)

def setGeneration (t : Namespaces) (id generation : ℕ) : Namespaces where
  toSerialTable := t.toSerialTable.updateRows (fun r => r.id = id) (fun r => { r with generation }) fun _ => rfl
  oneEach := by
    show ((t.rows.map fun r => if decide (r.id = id) then { r with generation } else r).map workspace).Nodup
    rw [List.map_map]
    convert t.oneEach using 1
    refine map_congr_left fun r _ => ?_
    simp only [comp_apply]
    split_ifs <;> rfl

theorem get_insertRow {t : Namespaces} {w : WorkspaceResourceScope} (h : t.findByWorkspace w = none)
    (n : ℕ) : (t.insertRow w h).get n = if t.next = n then some (newRow w t.next) else t.get n :=
  SerialTable.get_insert t.toSerialTable (fun _ => rfl) n

theorem get_setGeneration (t : Namespaces) (id generation n : ℕ) : (t.setGeneration id generation).get n =
      (t.get n).map fun r => if decide (r.id = id) then { r with generation } else r :=
  SerialTable.get_updateRows ..

end Namespaces

/-- The two tables, with the foreign key from locks to namespaces. -/
structure LockTables where
  namespaces : Namespaces
  locks : ResourceLocks
  owned : ∀ l ∈ locks.rows, ∃ ns, namespaces.get l.namespaceId = some ns

namespace LockTables

/-- `find_all_by_namespace`; the rows stand in the order of their ids. -/
def findAllByNamespace (d : LockTables) (namespaceId : ℕ) : List ResourceLock :=
  d.locks.rows.filter fun l => l.namespaceId = namespaceId

/-- `find_by_token`. -/
def findByToken (d : LockTables) (token : String) : Option ResourceLock := d.locks.rows.find? fun l => l.token = token

theorem mem_findAllByNamespace {d : LockTables} {n : ℕ} {l : ResourceLock} :
    l ∈ d.findAllByNamespace n ↔ l ∈ d.locks.rows ∧ l.namespaceId = n := by
  simp [findAllByNamespace]

theorem findAllByNamespace_eq_nil {d : LockTables} {n : ℕ} (h : d.namespaces.get n = none) :
    d.findAllByNamespace n = [] := by
  refine eq_nil_iff_forall_not_mem.mpr fun l hl => ?_
  obtain ⟨hrow, rfl⟩ := (mem_findAllByNamespace).mp hl
  obtain ⟨ns, hns⟩ := d.owned l hrow
  rw [h] at hns
  cases hns

/-! ### Statements -/

/-- `ensure_and_lock`: the namespace row of a workspace, inserted when it is missing. -/
def ensureAndLock (d : LockTables) (w : WorkspaceResourceScope) : ResourceLockNamespace × LockTables :=
  match h : d.namespaces.findByWorkspace w with
  | some ns => (ns, d)
  | none =>
    (newRow w d.namespaces.next,
      { namespaces := d.namespaces.insertRow w h
        locks := d.locks
        owned := by
          intro l hl
          obtain ⟨ns, hns⟩ := d.owned l hl
          refine ⟨ns, ?_⟩
          rw [get_insertRow, if_neg (SerialTable.lt_next_of_get hns).ne']
          exact hns })

/-- `lock_namespace_repo::lock_by_id`. -/
def lockNamespaceById (d : LockTables) (id : ℕ) : Except AsterError ResourceLockNamespace :=
  match d.namespaces.get id with
  | some ns => .ok ns
  | none => .error (recordNotFound "resource lock namespace")

/-- Insert a lock row; the unique index on tokens and the foreign key may refuse it. -/
def create (d : LockTables) (mk : ℕ → ResourceLock) (hmk : ∀ n, (mk n).id = n) :
    Except AsterError (ResourceLock × LockTables) :=
  let lock := mk d.locks.next
  if d.locks.rows.any fun l => l.token = lock.token then .error (uniqueViolation "resource_locks.token")
  else match h : d.namespaces.get lock.namespaceId with
    | none => .error (databaseError "FOREIGN KEY constraint failed")
    | some ns =>
      .ok (lock,
        { namespaces := d.namespaces
          locks := d.locks.insert mk hmk
          owned := by
            intro l hl
            rcases SerialTable.mem_insert.mp hl with hl | rfl
            · exact d.owned l hl
            · exact ⟨ns, h⟩ })

/-- A delete statement on the lock rows. -/
def deleteLocks (d : LockTables) (p : ResourceLock → Bool) : LockTables where
  namespaces := d.namespaces
  locks := d.locks.deleteRows p
  owned := fun l hl => d.owned l (Table.mem_deleteWhere.mp hl).1

/-- An update statement on the lock rows. -/
def updateLocks (d : LockTables) (p : ResourceLock → Bool) (f : ResourceLock → ResourceLock)
    (hf : ∀ l, (f l).id = l.id ∧ (f l).namespaceId = l.namespaceId) : LockTables where
  namespaces := d.namespaces
  locks := d.locks.updateRows p f fun l => (hf l).1
  owned := by
    intro l hl
    obtain ⟨r, hr, rfl⟩ := SerialTable.mem_updateRows.mp hl
    obtain ⟨ns, hns⟩ := d.owned r hr
    refine ⟨ns, ?_⟩
    split_ifs
    · rw [(hf r).2]
      exact hns
    · exact hns

/-- The generation column is an `i64`. -/
def maxGeneration : ℕ := 2 ^ 63 - 1

/-- `increment_generation`: one more than in the row that was read. -/
def incrementGeneration (d : LockTables) (ns : ResourceLockNamespace) : Except AsterError LockTables :=
  if maxGeneration ≤ ns.generation then .error (internalError "resource lock generation overflow")
  else
    .ok
      { namespaces := d.namespaces.setGeneration ns.id (ns.generation + 1)
        locks := d.locks
        owned := by
          intro l hl
          obtain ⟨r, hr⟩ := d.owned l hl
          rw [get_setGeneration, hr]
          exact ⟨_, rfl⟩ }

/-! ### What the statements do to the rows -/

section

variable {d d' d1 : LockTables} {ns ns' : ResourceLockNamespace} {w : WorkspaceResourceScope}
variable {l lock : ResourceLock} {n : ℕ} {p : ResourceLock → Bool} {f : ResourceLock → ResourceLock}

theorem lockNamespaceById_ok : d.lockNamespaceById n = .ok ns ↔ d.namespaces.get n = some ns := by
  unfold lockNamespaceById
  cases d.namespaces.get n <;> simp

/-- The namespace row that a transaction gets is the one of its workspace, and no other row moved. -/
theorem ensureAndLock_eq (h : d.ensureAndLock w = (ns, d')) :
    d'.namespaces.get ns.id = some ns ∧ ns.workspace = w ∧ d'.locks = d.locks ∧ d.namespaces.next ≤ d'.namespaces.next ∧
      ∀ n r, d'.namespaces.get n = some r → d.namespaces.get n = some r ∨
        (n = d.namespaces.next ∧ r = ns ∧ d.namespaces.findByWorkspace w = none) := by
  unfold ensureAndLock at h
  split at h
  · rename_i ns0 hfind
    cases h
    obtain ⟨hget, hw⟩ := findByWorkspace_eq_some hfind
    exact ⟨hget, hw, rfl, le_rfl, fun n r hr => .inl hr⟩
  · rename_i hfind
    cases h
    refine ⟨?_, rfl, rfl, Nat.le_succ _, ?_⟩
    · rw [get_insertRow]
      simp [newRow]
    · intro n r hr
      rw [get_insertRow] at hr
      split_ifs at hr with hn
      · exact .inr ⟨hn.symm, (some.inj hr).symm, hfind⟩
      · exact .inl hr

theorem create_ok {mk : ℕ → ResourceLock} {hmk : ∀ n, (mk n).id = n} (h : d.create mk hmk = .ok (lock, d')) :
    lock = mk d.locks.next ∧ d'.namespaces = d.namespaces ∧ d'.locks = d.locks.insert mk hmk := by
  simp only [create] at h
  split_ifs at h
  split at h
  · cases h
  · obtain ⟨rfl, rfl⟩ : _ = lock ∧ _ = d' := by simpa using h
    exact ⟨rfl, rfl, rfl⟩

theorem incrementGeneration_ok (h : d.incrementGeneration ns = .ok d') :
    d'.namespaces = d.namespaces.setGeneration ns.id (ns.generation + 1) ∧ d'.locks = d.locks := by
  unfold incrementGeneration at h
  split_ifs at h
  cases h
  exact ⟨rfl, rfl⟩

theorem findByToken_eq_some {token : String} (h : d.findByToken token = some l) :
    l ∈ d.locks.rows ∧ l.token = token := by
  exact ⟨mem_of_find?_eq_some h, by simpa using find?_some h⟩

end

end LockTables

/-! ### Rows change together with their generation -/

/-- `d'` is `d` after some writers: what is left of a namespace has a generation that is no smaller,
and if it is the same one the rows are the same. -/
structure Newer (d d' : LockTables) : Prop where
  next : d.namespaces.next ≤ d'.namespaces.next
  kept : ∀ n r', d'.namespaces.get n = some r' → n < d.namespaces.next →
    ∃ r, d.namespaces.get n = some r ∧ r.generation ≤ r'.generation ∧
      (r.generation = r'.generation → d'.findAllByNamespace n = d.findAllByNamespace n)

namespace Newer

variable {d d' d'' d1 : LockTables} {ns : ResourceLockNamespace} {w : WorkspaceResourceScope}

theorem refl (d : LockTables) : Newer d d where
  next := le_rfl
  kept _ r' hr' _ := ⟨r', hr', le_rfl, fun _ => rfl⟩

theorem trans (h : Newer d d') (h' : Newer d' d'') : Newer d d'' where
  next := h.next.trans h'.next
  kept := by
    intro n r'' hr'' hn
    obtain ⟨r', hr', hle', heq'⟩ := h'.kept n r'' hr'' (hn.trans_le h.next)
    obtain ⟨r, hr, hle, heq⟩ := h.kept n r' hr' hn
    refine ⟨r, hr, hle.trans hle', fun hgen => ?_⟩
    have hmid : r.generation = r'.generation := by omega
    have hlast : r'.generation = r''.generation := by omega
    rw [heq' hlast, heq hmid]

theorem of_ensureAndLock (h : d.ensureAndLock w = (ns, d')) : Newer d d' := by
  obtain ⟨-, -, hlocks, hnext, hrows⟩ := LockTables.ensureAndLock_eq h
  refine ⟨hnext, fun n r' hr' hn => ?_⟩
  rcases hrows n r' hr' with hold | ⟨rfl, -⟩
  · refine ⟨r', hold, le_rfl, fun _ => ?_⟩
    simp only [LockTables.findAllByNamespace, hlocks]
  · omega

theorem of_increment {e : LockTables} (hns : d.namespaces.get ns.id = some ns) (hsame : e.namespaces = d.namespaces)
    (hother : ∀ n, n ≠ ns.id → e.findAllByNamespace n = d.findAllByNamespace n)
    (h : e.incrementGeneration ns = .ok d') : Newer d d' := by
  obtain ⟨hnamespaces, hlocks⟩ := LockTables.incrementGeneration_ok h
  rw [hsame] at hnamespaces
  refine ⟨by rw [hnamespaces]; exact le_rfl, fun n r' hr' hn => ?_⟩
  rw [hnamespaces, get_setGeneration] at hr'
  obtain ⟨r, hr, rfl⟩ := map_eq_some_iff.mp hr'
  refine ⟨r, hr, ?_⟩
  by_cases hid : r.id = ns.id
  · -- the generation moved on, so nothing is said about the rows
    obtain rfl : r = ns := by
      have hkey := Table.key_of_get hr
      rw [← hkey, hid, hns] at hr
      exact (some.inj hr).symm
    simp
  · have hn' : n ≠ ns.id := by
      rw [← Table.key_of_get hr]
      exact hid
    refine ⟨by simp [hid], fun _ => ?_⟩
    have := hother n hn'
    simpa only [LockTables.findAllByNamespace, hlocks] using this

end Newer

end AsterDrive.Locks
