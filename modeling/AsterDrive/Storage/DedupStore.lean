import AsterDrive.Db.BlobRepo
import AsterDrive.Lib.Interleave

/-!
# DedupStore — content objects on a local disk, their rows and their cleanup

Three protocols over one table and one disk. A store links its temporary file to the content's path
unless something is there (`promote_local_file_if_absent`), runs its transaction, and takes a link it
made itself back when the transaction failed (`rollback_staged_dedup_blob`). Deletions and purges drop
references in one transaction. A cleanup claims a row that counts no reference, deletes the object and
then the row, or gives the claim back.

`refs` lists the blob of every revision. The object map is keyed by the policy, whose root directory
it is, and by the path below it.
-/

namespace AsterDrive.Storage.DedupStore

open Interleave Db List Option Table

/-- The contents that clients send: their SHA-256, their length, and
`storage_path_from_blob_key`. -/
structure Setup (κ : Type) where
  hash : κ → String
  length : κ → ℕ
  storagePathFromBlobKey : String → String

/-- The table, the references and the disk. -/
structure State where
  blobs : Blobs
  refs : List ℕ
  objects : ℕ → String → Option ℕ

/-- A content that is stored under a policy. -/
structure Job (κ : Type) where
  body : κ
  policyId : ℕ

/-- Where a worker stands: the call it makes next. `created` says that the store made the link. -/
inductive Pc (κ : Type)
  | idle
  | link (job : Job κ)
  | validate (job : Job κ) (created : Bool)
  | removeInvalid (job : Job κ)
  | staged (job : Job κ) (created : Bool)
  | rollback (job : Job κ)
  | rollbackDelete (job : Job κ)
  | claim (b : FileBlob)
  | delete (b : FileBlob)
  | probe (b : FileBlob)
  | drop (b : FileBlob)
  | restore (b : FileBlob)
  | finished

inductive Act (κ : Type)
  | store (job : Job κ)
  | cleanup (blobId : ℕ)
  /-- One version, or the versions of a purge, go. -/
  | deleteVersion (blobId : ℕ)
  | purge (blobIds : List ℕ)
  /-- The pending call succeeds, fails without effect, or fails although it took effect. -/
  | ok | error | lost
  /-- The link is made through a copy beside the target, because the plain link failed. -/
  | linkCopy
  /-- The outcome of the transaction is unknown, and it was rolled back. -/
  | unknownRollback
  /-- The policy, the driver or a thumbnail keeps a cleanup from deleting. -/
  | blocked
  | crash

variable {κ : Type} (cfg : Setup κ)

namespace Setup

def path (job : Job κ) : String := cfg.storagePathFromBlobKey (cfg.hash job.body)

def size (job : Job κ) : ℕ := cfg.length job.body

end Setup

namespace State

def object (s : State) (job : Job κ) : Option ℕ := s.objects job.policyId (cfg.path job)

def setObject (s : State) (policyId : ℕ) (path : String) (value : Option ℕ) : State :=
  { s with objects := fun k q => if k = policyId ∧ q = path then value else s.objects k q }

/-- `find_blob_by_hash`, whatever the reference count. -/
def hasRow (s : State) (job : Job κ) : Bool := s.blobs.rows.any (hasBlobKey (cfg.hash job.body) job.policyId .stored)

end State

/-! ### The steps -/

/-- A worker without a request. -/
def stepIdle (s : State) : Act κ → Option (State × Pc κ)
  | .store job => some (s, .link job)
  | .cleanup blobId =>
    match s.blobs.get blobId with
    | none => some (s, .finished)
    | some b => some (s, if b.refCount = 0 then .claim b else .finished)
  | .deleteVersion blobId =>
    if blobId ∈ s.refs then
      some ({ s with blobs := decrementBlobRefCount s.blobs blobId, refs := s.refs.erase blobId }, .finished)
    else none
  | .purge blobIds =>
    if blobIds.Subperm s.refs then
      match decrementBlobRefCountsBy s.blobs (blobIds.map fun id => (id, 1)) with
      | .ok blobs => some ({ s with blobs, refs := s.refs.diff blobIds }, .finished)
      | .error _ => some (s, .finished)
    else none
  | _ => none

/-- The link of `promote_local_file_if_absent`. A link through a copy was measured before. -/
def stepLink (job : Job κ) (s : State) : Act κ → Option (State × Pc κ)
  | .ok =>
    if (s.object cfg job).isNone then
      some (s.setObject job.policyId (cfg.path job) (some (cfg.size job)), .validate job true)
    else some (s, .validate job false)
  | .linkCopy =>
    if (s.object cfg job).isNone then
      some (s.setObject job.policyId (cfg.path job) (some (cfg.size job)), .staged job true)
    else some (s, .validate job false)
  | .error => some (s, .finished)
  | _ => none

/-- `validate_existing_local_blob_size`. -/
def stepValidate (job : Job κ) (created : Bool) (s : State) : Act κ → Option (State × Pc κ)
  | .ok =>
    if s.object cfg job = some (cfg.size job) then some (s, .staged job created)
    else some (s, if created then .removeInvalid job else .finished)
  | .error => some (s, if created then .removeInvalid job else .finished)
  | _ => none

/-- A removal of the content's object whose failure is only logged. -/
def stepRemove (job : Job κ) (s : State) : Act κ → Option (State × Pc κ)
  | .ok | .lost => some (s.setObject job.policyId (cfg.path job) none, .finished)
  | .error => some (s, .finished)
  | _ => none

/-- The transaction of the store: the blob and the revision that refers to it. -/
def runTransaction (job : Job κ) (s : State) : Except AsterError State :=
  match findOrCreateBlob s.blobs (cfg.hash job.body) (cfg.size job) job.policyId (cfg.path job) with
  | .error e => .error e
  | .ok (b, blobs) => .ok { s with blobs, refs := b.id :: s.refs }

/-- After a transaction that certainly failed. -/
def afterFailure (job : Job κ) (created : Bool) : Pc κ := if created then .rollback job else .finished

def stepStaged (job : Job κ) (created : Bool) (s : State) : Act κ → Option (State × Pc κ)
  | .ok | .lost =>
    match runTransaction cfg job s with
    | .ok s' => some (s', .finished)
    | .error _ => some (s, afterFailure job created)
  | .error => some (s, afterFailure job created)
  | .unknownRollback => some (s, .finished)
  | _ => none

/-- `driver.delete` of a cleanup; an error is followed by a look at the object. -/
def stepDelete (b : FileBlob) (s : State) (a : Act κ) : Option (State × Pc κ) :=
  match b.storagePath, a with
  | none, .ok => some (s, if b.backing = .virtualEmpty then .drop b else .restore b)
  | some path, .ok => some (s.setObject b.policyId path none, .drop b)
  | some path, .lost => some (s.setObject b.policyId path none, .probe b)
  | some _, .error => some (s, .probe b)
  | _, .blocked => some (s, .restore b)
  | _, _ => none

def stepProbe (b : FileBlob) (s : State) : Act κ → Option (State × Pc κ)
  | .ok =>
    match b.storagePath with
    | none => none
    | some path => some (s, if (s.objects b.policyId path).isNone then .drop b else .restore b)
  | .error => some (s, .restore b)
  | _ => none

def stepDrop (b : FileBlob) (s : State) : Act κ → Option (State × Pc κ)
  | .ok =>
    match deleteBlobIfCleanupClaimed s.blobs b.id with
    | some blobs => some ({ s with blobs }, .finished)
    | none => some (s, .restore b)
  | .error => some (s, .restore b)
  | _ => none

def stepRestore (b : FileBlob) (s : State) : Act κ → Option (State × Pc κ)
  | .ok =>
    match restoreBlobCleanupClaim s.blobs b.id with
    | some blobs => some ({ s with blobs }, .finished)
    | none => some (s, .finished)
  | .error => some (s, .finished)
  | _ => none

def stepCall (a : Act κ) (s : State) : Pc κ → Option (State × Pc κ)
  | .idle => stepIdle s a
  | .link job => stepLink cfg job s a
  | .validate job created => stepValidate cfg job created s a
  | .removeInvalid job => stepRemove cfg job s a
  | .staged job created => stepStaged cfg job created s a
  | .rollback job =>
    match a with
    | .ok => some (s, if s.hasRow cfg job then .finished else .rollbackDelete job)
    | .error => some (s, .finished)
    | _ => none
  | .rollbackDelete job => stepRemove cfg job s a
  | .claim b =>
    match a with
    | .ok =>
      match claimBlobCleanup s.blobs b.id with
      | some blobs => some ({ s with blobs }, .delete b)
      | none => some (s, .finished)
    | .error => some (s, .finished)
    | _ => none
  | .delete b => stepDelete b s a
  | .probe b => stepProbe b s a
  | .drop b => stepDrop b s a
  | .restore b => stepRestore b s a
  | .finished => none

def step (a : Act κ) (s : State) (p : Pc κ) : Option (State × Pc κ) :=
  match a with
  | .crash => some (s, .finished)
  | a => stepCall cfg a s p

def system : System State (Pc κ) (Act κ) := ⟨step cfg⟩

/-- No worker is busy. -/
def start (s : State) : Config State (Pc κ) := { shared := s, proc := fun _ => .idle }

/-- Every row with a reference has its object, of its size. -/
def Stored (s : State) : Prop :=
  ∀ b ∈ s.blobs.rows, 0 < b.refCount → ∀ path, b.storagePath = some path → s.objects b.policyId path = some b.size

/-! ### What keeps the content -/

/-- Contents of different lengths have different digests, and paths tell digests apart. -/
structure Setup.Law : Prop where
  lengths : ∀ a b, cfg.hash a = cfg.hash b → cfg.length a = cfg.length b
  paths : ∀ a b, cfg.storagePathFromBlobKey (cfg.hash a) = cfg.storagePathFromBlobKey (cfg.hash b) →
    cfg.hash a = cfg.hash b

/-- The row counts its references, or is claimed and has none. -/
def Counted (refs : List ℕ) (b : FileBlob) : Prop :=
  b.refCount = (refs.count b.id : ℤ) ∨ (b.refCount = blobCleanupClaimedRefCount ∧ b.id ∉ refs)

/-- One row to a path, and the rows of contents are where they belong. -/
structure Filed (t : Blobs) : Prop where
  paths : ∀ b ∈ t.rows, ∀ b' ∈ t.rows, ∀ path, b.storagePath = some path →
    b'.storagePath = some path → b.policyId = b'.policyId → b = b'
  placed : ∀ b ∈ t.rows, ∀ body, b.hash = cfg.hash body → b.backing = .stored →
    b.storagePath = some (cfg.storagePathFromBlobKey (cfg.hash body)) ∧ b.size = cfg.length body
  owned : ∀ b ∈ t.rows, ∀ body, b.storagePath = some (cfg.storagePathFromBlobKey (cfg.hash body)) →
    b.hash = cfg.hash body ∧ b.backing = .stored

/-- The rows are in order, and so are their counts. -/
structure Orderly (s : State) : Prop where
  filed : Filed cfg s.blobs
  counted : ∀ b ∈ s.blobs.rows, Counted s.refs b
  below : ∀ id ∈ s.refs, id < s.blobs.next

/-- The row that a cleanup has claimed. -/
def Pc.claimed : Pc κ → Option FileBlob
  | .delete b | .probe b | .drop b | .restore b => some b
  | _ => none

/-- The row that a cleanup has read. -/
def Pc.read : Pc κ → Option FileBlob
  | .claim b => some b
  | p => p.claimed

/-- The object that belongs to the row is still the one it was. -/
def SameObject (x b : FileBlob) : Prop := x.policyId = b.policyId ∧ x.storagePath = b.storagePath

/-- What holds of a worker that cleans up. -/
structure Cleans (s : State) (p : Pc κ) : Prop where
  read : ∀ b, p.read = some b → b.id < s.blobs.next ∧ ∀ x, s.blobs.get b.id = some x → SameObject x b
  claimed : ∀ b, p.claimed = some b → ∃ x, s.blobs.get b.id = some x ∧ x.refCount = blobCleanupClaimedRefCount

/-- No row is claimed by two workers. -/
def Apart (p q : Pc κ) : Prop := ∀ b b', p.claimed = some b → q.claimed = some b' → b.id ≠ b'.id

/-- What a worker has checked still holds when it acts upon it: the object that was promoted is
there, with its size, when the transaction commits; the content has no row when its object is
removed. -/
def stillHolds (s : State) : Pc κ → Act κ → Bool
  | .staged job _, .ok | .staged job _, .lost => s.object cfg job = some (cfg.size job)
  | .rollbackDelete job, .ok | .rollbackDelete job, .lost
  | .removeInvalid job, .ok | .removeInvalid job, .lost => s.hasRow cfg job = false
  | _, _ => true

def StillHolds (s : State) (p : Pc κ) (a : Act κ) : Prop := stillHolds cfg s p a = true

instance (s : State) (p : Pc κ) (a : Act κ) : Decidable (StillHolds cfg s p a) := inferInstanceAs (Decidable (_ = _))

section

variable {cfg} {s s' : State} {p p' q : Pc κ} {a : Act κ} {t t' : Blobs} {b x : FileBlob} {id : ℕ}

/-! ### Statements on one row -/

/-- The rows are the old ones, or fewer, with other counts. -/
structure Recounted (t t' : Blobs) : Prop where
  next : t'.next = t.next
  row : ∀ k x', t'.get k = some x' → ∃ x, t.get k = some x ∧ x' = { x with refCount := x'.refCount }

theorem get_updateOne {q : FileBlob → Prop} [DecidablePred q] {n : ℤ} (hx : t.get id = some x) (hq : q x) (k : ℕ) :
    (updateRefCounts t (fun b => b.id = id ∧ q b) fun _ => n).get k =
      if k = id then some { x with refCount := n } else t.get k := by
  rw [get_updateRefCounts]
  by_cases hk : k = id
  · subst hk
    rw [if_pos rfl, hx, map_some, if_pos]
    exact decide_eq_true ⟨key_of_get hx, hq⟩
  · rw [if_neg hk]
    rcases hy : t.get k with _ | y
    · rfl
    · have hne : y.id ≠ id := by rw [key_of_get hy]; exact hk
      simp [hne]

theorem affected_one {q : FileBlob → Prop} [DecidablePred q]
    (h : t.affected (fun b => b.id = id ∧ q b) = 1) : ∃ x, t.get id = some x ∧ q x :=
  affected_ne_zero.mp (by omega)

theorem claim_ok (h : claimBlobCleanup t id = some t') :
    ∃ x, t.get id = some x ∧ x.refCount = 0 ∧ t'.next = t.next ∧ ∀ k, t'.get k =
      if k = id then some { x with refCount := blobCleanupClaimedRefCount } else t.get k := by
  unfold claimBlobCleanup at h
  split_ifs at h with haff
  cases h
  obtain ⟨x, hx, hzero⟩ := affected_one haff
  exact ⟨x, hx, hzero, rfl, get_updateOne hx hzero⟩

theorem restore_ok (h : restoreBlobCleanupClaim t id = some t') :
    ∃ x, t.get id = some x ∧ x.refCount = blobCleanupClaimedRefCount ∧ t'.next = t.next ∧
      ∀ k, t'.get k = if k = id then some { x with refCount := 0 } else t.get k := by
  unfold restoreBlobCleanupClaim at h
  split_ifs at h with haff
  cases h
  obtain ⟨x, hx, hclaim⟩ := affected_one haff
  exact ⟨x, hx, hclaim, rfl, get_updateOne hx hclaim⟩

theorem drop_ok (h : deleteBlobIfCleanupClaimed t id = some t') :
    t'.next = t.next ∧ ∀ k, t'.get k = if k = id then none else t.get k := by
  unfold deleteBlobIfCleanupClaimed at h
  split_ifs at h with haff
  cases h
  obtain ⟨x, hx, hclaim⟩ := affected_one haff
  refine ⟨rfl, fun k => ?_⟩
  show (t.toTable.deleteWhere _).get k = _
  rw [get_deleteWhere]
  by_cases hk : k = id
  · subst hk
    rw [if_pos rfl, hx, filter_some, if_neg]
    simp [key_of_get hx, hclaim]
  · rw [if_neg hk]
    rcases hy : t.get k with _ | y
    · rfl
    · have hne : y.id ≠ id := by rw [key_of_get hy]; exact hk
      simp [hne]

theorem recounted_of_one {n : ℤ} (hx : t.get id = some x) (hnext : t'.next = t.next)
    (hget : ∀ k, t'.get k = if k = id then some { x with refCount := n } else t.get k) :
    Recounted t t' := by
  refine ⟨hnext, fun k y hy => ?_⟩
  rw [hget k] at hy
  split_ifs at hy with hk
  · cases hy
    exact ⟨x, hk ▸ hx, rfl⟩
  · exact ⟨y, hy, rfl⟩

theorem Filed.recount (h : Filed cfg t) (hr : Recounted t t') : Filed cfg t' := by
  have horigin : ∀ y ∈ t'.rows, ∃ x ∈ t.rows, y = { x with refCount := y.refCount } := by
    intro y hy
    obtain ⟨x, hx, heq⟩ := hr.row y.id y (get_of_mem hy)
    exact ⟨x, mem_of_get hx, heq⟩
  refine ⟨?_, ?_, ?_⟩
  · intro y hy y' hy' path hpath hpath' hpolicy
    obtain ⟨x, hx, heq⟩ := horigin y hy
    obtain ⟨x', hx', heq'⟩ := horigin y' hy'
    rw [heq] at hpath hpolicy
    rw [heq'] at hpath' hpolicy
    have hsame : x = x' := h.paths x hx x' hx' path hpath hpath' hpolicy
    refine eq_of_key hy hy' ?_
    rw [heq, heq', hsame]
  · intro y hy body hhash hbacking
    obtain ⟨x, hx, heq⟩ := horigin y hy
    rw [heq] at hhash hbacking ⊢
    exact h.placed x hx body hhash hbacking
  · intro y hy body hpath
    obtain ⟨x, hx, heq⟩ := horigin y hy
    rw [heq] at hpath ⊢
    exact h.owned x hx body hpath

/-! ### The transaction of a store -/

/-- The row of a content after its store committed. -/
structure IsRowOf (cfg : Setup κ) (job : Job κ) (b : FileBlob) : Prop where
  hash : b.hash = cfg.hash job.body
  backing : b.backing = .stored
  policyId : b.policyId = job.policyId
  storagePath : b.storagePath = some (cfg.path job)
  size : b.size = cfg.size job

/-- What the transaction did: one reference more on the row `b`, which is old or new. -/
structure Committed (cfg : Setup κ) (t : Blobs) (job : Job κ) (b : FileBlob) (t' : Blobs) : Prop where
  persisted : Persisted t t' b
  row : IsRowOf cfg job b
  known : (∃ x, t.get b.id = some x) ∨ b.id = t.next
  fresh : b.id = t.next → ∀ x ∈ t.rows, hasBlobKey (cfg.hash job.body) job.policyId .stored x = false

theorem commit_ok {job : Job κ} (hF : Filed cfg t)
    (h : findOrCreateBlob t (cfg.hash job.body) (cfg.size job) job.policyId (cfg.path job) =
      .ok (b, t')) : Committed cfg t job b t' := by
  obtain ⟨hp, ⟨x, hx, _, hkey⟩ | ⟨hid, hsize, hhash, hbacking, hpath⟩⟩ := adoptOrInsert_ok h
  · have hsame : b = { x with refCount := x.refCount + oneRef b.id b.id } :=
      some.inj (hp.get.symm.trans (hp.shifted.old _ _ hx))
    unfold hasBlobKey at hkey
    rw [decide_eq_true_eq] at hkey
    obtain ⟨hpath, hsize⟩ := hF.placed x (mem_of_get hx) job.body hkey.1 hkey.2.2
    refine ⟨hp, ⟨?_, ?_, ?_, ?_, ?_⟩, .inl ⟨x, hx⟩, fun hid => (adoptOrInsert_new h hid).2⟩
    · rw [hsame]
      exact hkey.1
    · rw [hsame]
      exact hkey.2.2
    · rw [hsame]
      exact hkey.2.1
    · rw [hsame]
      exact hpath
    · rw [hsame]
      exact hsize
  · obtain ⟨hpolicy, hfresh⟩ := adoptOrInsert_new h hid
    exact ⟨hp, ⟨hhash, hbacking, hpolicy, hpath, hsize⟩, .inr hid, fun _ => hfresh⟩

theorem origin_of_persisted (hp : Persisted t t' b) (hknown : (∃ x, t.get b.id = some x) ∨ b.id = t.next) {k : ℕ}
    {y : FileBlob} (hy : t'.get k = some y) :
    (∃ x, t.get k = some x ∧ y = { x with refCount := x.refCount + oneRef b.id k }) ∨
      (y = b ∧ k = b.id ∧ b.id = t.next ∧ t.get k = none) := by
  rcases hx : t.get k with _ | x
  · right
    obtain ⟨hle, _⟩ := hp.shifted.new k y hx hy
    obtain rfl : y.id = k := key_of_get hy
    obtain rfl : y = b := hp.fresh y (mem_of_get hy) hle
    refine ⟨rfl, rfl, ?_, rfl⟩
    rcases hknown with ⟨x, hx'⟩ | hid
    · rw [hx] at hx'
      simp at hx'
    · exact hid
  · left
    refine ⟨x, rfl, ?_⟩
    exact some.inj (hy.symm.trans (hp.shifted.old k x hx))

theorem Committed.origin {job : Job κ} (h : Committed cfg t job b t') {k : ℕ} {y : FileBlob} (hy : t'.get k = some y) :
    (∃ x, t.get k = some x ∧ y = { x with refCount := x.refCount + oneRef b.id k }) ∨
      (y = b ∧ k = b.id ∧ b.id = t.next ∧ t.get k = none) := origin_of_persisted h.persisted h.known hy

theorem Committed.filed {job : Job κ} (hlaw : cfg.Law) (hF : Filed cfg t)
    (h : Committed cfg t job b t') : Filed cfg t' := by
  have horigin : ∀ y ∈ t'.rows, (∃ x ∈ t.rows, y = { x with refCount := y.refCount }) ∨ (y = b ∧ b.id = t.next) := by
    intro y hy
    rcases h.origin (get_of_mem hy) with ⟨x, hx, heq⟩ | ⟨heq, _, hid, _⟩
    · refine .inl ⟨x, mem_of_get hx, ?_⟩
      rw [heq]
    · exact .inr ⟨heq, hid⟩
  -- an old row at the path of the new one would have had its key
  have hclash : ∀ x ∈ t.rows, b.id = t.next → x.storagePath = b.storagePath → x.policyId = b.policyId → False := by
    intro x hx hid hpath hpolicy
    obtain ⟨hhash, hstored⟩ := hF.owned x hx job.body (hpath.trans h.row.storagePath)
    have hkey := h.fresh hid x hx
    unfold hasBlobKey at hkey
    rw [decide_eq_false_iff_not] at hkey
    exact hkey ⟨hhash, hpolicy.trans h.row.policyId, hstored⟩
  refine ⟨?_, ?_, ?_⟩
  · intro y hy y' hy' path hpath hpath' hpolicy
    refine eq_of_key hy hy' ?_
    rcases horigin y hy with ⟨x, hx, heq⟩ | ⟨rfl, hid⟩
    · rw [heq] at hpath hpolicy
      rcases horigin y' hy' with ⟨x', hx', heq'⟩ | ⟨rfl, hid⟩
      · rw [heq'] at hpath' hpolicy
        rw [heq, heq', hF.paths x hx x' hx' path hpath hpath' hpolicy]
      · exact (hclash x hx hid (hpath.trans hpath'.symm) hpolicy).elim
    · rcases horigin y' hy' with ⟨x', hx', heq'⟩ | ⟨rfl, _⟩
      · rw [heq'] at hpath' hpolicy
        exact (hclash x' hx' hid (hpath'.trans hpath.symm) hpolicy.symm).elim
      · rfl
  · intro y hy body hhash hbacking
    rcases horigin y hy with ⟨x, hx, heq⟩ | ⟨rfl, _⟩
    · rw [heq] at hhash hbacking ⊢
      exact hF.placed x hx body hhash hbacking
    · have hsame : cfg.hash job.body = cfg.hash body := h.row.hash.symm.trans hhash
      refine ⟨?_, ?_⟩
      · rw [h.row.storagePath, ← hsame]
        rfl
      · rw [h.row.size]
        exact hlaw.lengths _ _ hsame
  · intro y hy body hpath
    rcases horigin y hy with ⟨x, hx, heq⟩ | ⟨rfl, _⟩
    · rw [heq] at hpath ⊢
      exact hF.owned x hx body hpath
    · have hpaths := some.inj (h.row.storagePath.symm.trans hpath)
      exact ⟨h.row.hash.trans (hlaw.paths _ _ hpaths), h.row.backing⟩

theorem Committed.counted {job : Job κ} {refs : List ℕ} (h : Committed cfg t job b t')
    (hcounted : ∀ x ∈ t.rows, Counted refs x) (hbelow : ∀ id ∈ refs, id < t.next) :
    ∀ y ∈ t'.rows, Counted (b.id :: refs) y := by
  intro y hy
  rcases h.origin (get_of_mem hy) with ⟨x, hx, heq⟩ | ⟨rfl, _, hid, hnone⟩
  · have hid : x.id = y.id := key_of_get hx
    have hold := hcounted x (mem_of_get hx)
    have hactive := h.persisted.shifted.active y.id x hx
    unfold Counted blobCleanupClaimedRefCount at hold ⊢
    rw [hid] at hold
    have hcount : y.refCount = x.refCount + oneRef b.id y.id := congrArg FileBlob.refCount heq
    rw [hcount, count_cons, mem_cons]
    unfold oneRef at hactive ⊢
    by_cases hk : y.id = b.id
    · rw [if_pos hk] at hactive ⊢
      rcases hold with hold | ⟨hclaim, _⟩
      · left
        simp [hk, hold]
      · omega
    · rw [if_neg hk]
      have hbeq : (b.id == y.id) = false := by simpa using Ne.symm hk
      rcases hold with hold | ⟨hclaim, hnot⟩
      · left
        simp [hbeq, hold]
      · right
        exact ⟨by omega, fun hmem => hmem.elim hk hnot⟩
  · left
    obtain ⟨_, hone⟩ := h.persisted.shifted.new y.id y hnone (get_of_mem hy)
    have hnot : y.id ∉ refs := fun hmem => by
      have hlt := hbelow _ hmem
      omega
    rw [hone, count_cons, count_eq_zero_of_not_mem hnot]
    simp [oneRef]

/-! ### The transaction of a deletion -/

/-- What a deletion or a purge did: references and counts go down together. -/
structure Released (t : Blobs) (ids : List ℕ) (t' : Blobs) : Prop where
  next : t'.next = t.next
  get : ∀ k, t'.get k = (t.get k).map fun b =>
    if ids.count k = 0 then b else { b with refCount := flooredDecrement (ids.count k) b }

theorem decrement_released (t : Blobs) (id : ℕ) : Released t [id] (decrementBlobRefCount t id) := by
  refine ⟨rfl, fun k => ?_⟩
  unfold decrementBlobRefCount
  rw [get_updateRefCounts]
  rcases hx : t.get k with _ | x
  · rfl
  · obtain rfl : x.id = k := key_of_get hx
    by_cases hk : x.id = id
    · simp [hk]
    · have hbeq : (id == x.id) = false := by simpa using Ne.symm hk
      simp [hk, count_cons, hbeq]

theorem totalDelta_ones (ids : List ℕ) (k : ℕ) : totalDelta (ids.map fun id => (id, 1)) k = (ids.count k : ℤ) := by
  induction ids with
  | nil => rfl
  | cons id ids ih =>
    have hcons : totalDelta ((id :: ids).map fun id => (id, 1)) k =
        (if id = k then 1 else 0) + totalDelta (ids.map fun id => (id, 1)) k := by
      simp [totalDelta]
    rw [hcons, ih, count_cons]
    by_cases hk : id = k
    · simp [hk]
      omega
    · simp [hk]

theorem purge_released {ids : List ℕ}
    (h : decrementBlobRefCountsBy t (ids.map fun id => (id, 1)) = .ok t') : Released t ids t' := by
  obtain ⟨p, g, rfl, hget⟩ := decrementBy_ok h
  refine ⟨rfl, fun k => ?_⟩
  rw [hget k, totalDelta_ones]
  simp only [Nat.cast_eq_zero]

theorem Released.recounted {ids : List ℕ} (h : Released t ids t') : Recounted t t' := by
  refine ⟨h.next, fun k y hy => ?_⟩
  rw [h.get k] at hy
  obtain ⟨x, hx, heq⟩ := map_eq_some_iff.mp hy
  refine ⟨x, hx, ?_⟩
  split_ifs at heq
  all_goals rw [← heq]

theorem Released.counted {ids refs : List ℕ} (h : Released t ids t') (hids : ids.Subperm refs)
    (hcounted : ∀ x ∈ t.rows, Counted refs x) : ∀ y ∈ t'.rows, Counted (refs.diff ids) y := by
  intro y hy
  have hget := Table.get_of_mem hy
  rw [h.get y.id] at hget
  obtain ⟨x, hx, heq⟩ := map_eq_some_iff.mp hget
  have hid : x.id = y.id := Table.key_of_get hx
  have hold := hcounted x (mem_of_get hx)
  have hle := hids.count_le y.id
  unfold Counted at hold ⊢
  rw [hid] at hold
  rcases hold with hold | ⟨hclaim, hnot⟩
  · left
    rw [count_diff]
    have hcount := congrArg FileBlob.refCount heq
    split_ifs at hcount with hzero
    · omega
    · have hfloor : ¬ x.refCount < (ids.count y.id : ℤ) := by omega
      simp only [flooredDecrement, if_neg hfloor] at hcount
      omega
  · right
    have hzero : ids.count y.id = 0 := by
      have := count_eq_zero_of_not_mem hnot
      omega
    rw [if_pos hzero] at heq
    refine ⟨heq ▸ hclaim, fun hmem => hnot (diff_subset _ _ hmem)⟩

end

/-! ### What a step can do -/

/-- A worker forgets the row it read, keeps it, or reads one. -/
inductive Goes (s : State) (p p' : Pc κ) : Prop
  | away (hread : p'.read = none)
  | on (hread : p'.read = p.read) (hclaimed : p'.claimed = p.claimed)
  | reads (b : FileBlob) (hread : p'.read = some b) (hclaimed : p'.claimed = none) (hget : s.blobs.get b.id = some b)

/-- The steps, as far as the tables and the disk are concerned. -/
inductive Moves (s : State) (p p' : Pc κ) : State → Prop
  | same (hp : Goes s p p') : Moves s p p' s
  | linked (policyId : ℕ) (path : String) (size : ℕ) (hp : p'.read = none) (habsent : s.objects policyId path = none) :
      Moves s p p' (s.setObject policyId path (some size))
  | removed (job : Job κ) (hp : p'.read = none) (hrow : s.hasRow cfg job = false) :
      Moves s p p' (s.setObject job.policyId (cfg.path job) none)
  | deleted (b : FileBlob) (path : String) (hb : p.claimed = some b) (hp : p'.claimed = some b)
      (hpath : b.storagePath = some path) : Moves s p p' (s.setObject b.policyId path none)
  | committed (job : Job κ) (b : FileBlob) (blobs : Blobs) (hp : p'.read = none)
      (hobject : s.object cfg job = some (cfg.size job))
      (hok : findOrCreateBlob s.blobs (cfg.hash job.body) (cfg.size job) job.policyId (cfg.path job) = .ok (b, blobs)) :
      Moves s p p' { s with blobs, refs := b.id :: s.refs }
  | released (ids : List ℕ) (blobs : Blobs) (hp : p'.read = none) (hids : ids.Subperm s.refs)
      (hok : Released s.blobs ids blobs) : Moves s p p' { s with blobs, refs := s.refs.diff ids }
  | claims (b : FileBlob) (blobs : Blobs) (hb : p.read = some b) (hp : p'.claimed = some b)
      (hok : claimBlobCleanup s.blobs b.id = some blobs) : Moves s p p' { s with blobs }
  | drops (b : FileBlob) (blobs : Blobs) (hb : p.claimed = some b) (hp : p'.read = none)
      (hok : deleteBlobIfCleanupClaimed s.blobs b.id = some blobs) : Moves s p p' { s with blobs }
  | restores (b : FileBlob) (blobs : Blobs) (hb : p.claimed = some b) (hp : p'.read = none)
      (hok : restoreBlobCleanupClaim s.blobs b.id = some blobs) : Moves s p p' { s with blobs }

section

variable {cfg} {s s' : State} {p p' q : Pc κ} {a : Act κ} {t t' : Blobs} {b : FileBlob}

theorem Moves.of_same {next : Pc κ} (h : some (s, next) = some (s', p'))
    (hp : Goes s p next) : Moves cfg s p p' s' := by
  cases h
  exact .same hp

theorem stepIdle_moves (h : stepIdle s a = some (s', p')) : Moves cfg s .idle p' s' := by
  cases a with simp only [stepIdle] at h
  | store job => exact .of_same h (.on rfl rfl)
  | cleanup blobId =>
    split at h
    · exact .of_same h (.away rfl)
    · rename_i b hb
      split_ifs at h
      · have hid : b.id = blobId := key_of_get hb
        exact .of_same h (.reads b rfl rfl (hid ▸ hb))
      · exact .of_same h (.away rfl)
  | deleteVersion blobId =>
    split_ifs at h with hmem
    cases h
    have hids : [blobId].Subperm s.refs := singleton_subperm_iff.mpr hmem
    have hmove : Moves cfg s .idle .finished
        { s with blobs := decrementBlobRefCount s.blobs blobId, refs := s.refs.diff [blobId] } :=
      .released [blobId] _ rfl hids (decrement_released s.blobs blobId)
    simpa using hmove
  | purge blobIds =>
    split_ifs at h with hids
    split at h
    · rename_i blobs hok
      cases h
      exact .released blobIds blobs rfl hids (purge_released hok)
    · exact .of_same h (.on rfl rfl)
  | _ => simp [stepIdle] at h

theorem stepLink_moves {job : Job κ} (h : stepLink cfg job s a = some (s', p')) : Moves cfg s (.link job) p' s' := by
  cases a with
  | ok | linkCopy =>
    simp only [stepLink] at h
    split_ifs at h with habsent
    · cases h
      exact .linked _ _ _ rfl (isNone_iff_eq_none.mp habsent)
    · exact .of_same h (.on rfl rfl)
  | error => exact .of_same h (.on rfl rfl)
  | _ => simp [stepLink] at h

theorem stepValidate_moves {job : Job κ} {created : Bool} (h : stepValidate cfg job created s a = some (s', p')) :
    Moves cfg s (.validate job created) p' s' := by
  have hend : (if created then Pc.removeInvalid job else .finished).read = none := by
    split_ifs <;> rfl
  cases a with
  | ok =>
    simp only [stepValidate] at h
    split_ifs at h
    · exact .of_same h (.on rfl rfl)
    all_goals exact .of_same h (.away rfl)
  | error => exact .of_same h (.away hend)
  | _ => simp [stepValidate] at h

theorem stepRemove_moves {job : Job κ} (hg : a = .ok ∨ a = .lost → s.hasRow cfg job = false)
    (h : stepRemove cfg job s a = some (s', p')) : Moves cfg s p p' s' := by
  cases a with
  | ok =>
    cases h
    exact .removed job rfl (hg (.inl rfl))
  | lost =>
    cases h
    exact .removed job rfl (hg (.inr rfl))
  | error => exact .of_same h (.away rfl)
  | _ => simp [stepRemove] at h

theorem afterFailure_read (job : Job κ) (created : Bool) : (afterFailure job created).read = none := by
  unfold afterFailure
  split_ifs <;> rfl

theorem stepStaged_moves {job : Job κ} {created : Bool}
    (hg : a = .ok ∨ a = .lost → s.object cfg job = some (cfg.size job))
    (h : stepStaged cfg job created s a = some (s', p')) :
    Moves cfg s (.staged job created) p' s' := by
  have hfail : (afterFailure job created).read = none := afterFailure_read job created
  have hrun : (a = .ok ∨ a = .lost) → (match runTransaction cfg job s with
      | .ok s' => some (s', Pc.finished)
      | .error _ => some (s, afterFailure job created)) = some (s', p') →
      Moves cfg s (.staged job created) p' s' := by
    intro ha hres
    unfold runTransaction at hres
    split at hres
    · rename_i s1 hs1
      split at hs1
      · simp at hs1
      · rename_i b blobs hok
        cases hs1
        cases hres
        exact .committed job b blobs rfl (hg ha) hok
    · exact .of_same hres (.away hfail)
  cases a with
  | ok => exact hrun (.inl rfl) h
  | lost => exact hrun (.inr rfl) h
  | error => exact .of_same h (.away hfail)
  | unknownRollback => exact .of_same h (.away rfl)
  | _ => simp [stepStaged] at h

theorem stepDelete_moves (h : stepDelete b s a = some (s', p')) : Moves cfg s (.delete b) p' s' := by
  unfold stepDelete at h
  split at h
  · split_ifs at h
    all_goals exact .of_same h (.on rfl rfl)
  · rename_i path hpath
    cases h
    exact .deleted b path rfl rfl hpath
  · rename_i path hpath
    cases h
    exact .deleted b path rfl rfl hpath
  · exact .of_same h (.on rfl rfl)
  · exact .of_same h (.on rfl rfl)
  · simp at h

theorem stepProbe_moves (h : stepProbe b s a = some (s', p')) : Moves cfg s (.probe b) p' s' := by
  cases a with
  | ok =>
    simp only [stepProbe] at h
    split at h
    · simp at h
    · split_ifs at h
      all_goals exact .of_same h (.on rfl rfl)
  | error => exact .of_same h (.on rfl rfl)
  | _ => simp [stepProbe] at h

theorem stepDrop_moves (h : stepDrop b s a = some (s', p')) : Moves cfg s (.drop b) p' s' := by
  cases a with
  | ok =>
    simp only [stepDrop] at h
    split at h
    · rename_i blobs hok
      cases h
      exact .drops b blobs rfl rfl hok
    · exact .of_same h (.on rfl rfl)
  | error => exact .of_same h (.on rfl rfl)
  | _ => simp [stepDrop] at h

theorem stepRestore_moves (h : stepRestore b s a = some (s', p')) : Moves cfg s (.restore b) p' s' := by
  cases a with
  | ok =>
    simp only [stepRestore] at h
    split at h
    · rename_i blobs hok
      cases h
      exact .restores b blobs rfl rfl hok
    · exact .of_same h (.away rfl)
  | error => exact .of_same h (.away rfl)
  | _ => simp [stepRestore] at h

theorem stepCall_moves (hg : StillHolds cfg s p a) (h : stepCall cfg a s p = some (s', p')) : Moves cfg s p p' s' := by
  unfold StillHolds at hg
  cases p with
  | idle => exact stepIdle_moves h
  | link job => exact stepLink_moves h
  | validate job created => exact stepValidate_moves h
  | removeInvalid job | rollbackDelete job =>
    refine stepRemove_moves ?_ h
    rintro (rfl | rfl) <;> simpa [stillHolds] using hg
  | staged job created =>
    refine stepStaged_moves ?_ h
    rintro (rfl | rfl) <;> simpa [stillHolds] using hg
  | rollback job =>
    simp only [stepCall] at h
    split at h
    · split_ifs at h
      all_goals exact .of_same h (.away rfl)
    · exact .of_same h (.away rfl)
    · simp at h
  | claim b =>
    simp only [stepCall] at h
    split at h
    · split at h
      · rename_i blobs hok
        cases h
        exact .claims b blobs rfl rfl hok
      · exact .of_same h (.away rfl)
    · exact .of_same h (.away rfl)
    · simp at h
  | delete b => exact stepDelete_moves h
  | probe b => exact stepProbe_moves h
  | drop b => exact stepDrop_moves h
  | restore b => exact stepRestore_moves h
  | finished => simp [stepCall] at h

theorem step_moves (hg : StillHolds cfg s p a) (h : step cfg a s p = some (s', p')) : Moves cfg s p p' s' := by
  unfold step at h
  split at h
  · exact .of_same h (.away rfl)
  · exact stepCall_moves hg h

/-! ### What every step keeps -/

theorem Pc.read_of_claimed (h : p.claimed = some b) : p.read = some b := by
  cases p with
  | delete _ | probe _ | drop _ | restore _ => exact h
  | _ => simp [Pc.claimed] at h

theorem Pc.claimed_of_read (h : p.read = none) : p.claimed = none := by
  rcases hp : p.claimed with _ | b
  · rfl
  · rw [Pc.read_of_claimed hp] at h
    simp at h

theorem setObject_ne {policyId k : ℕ} {path q : String} {value : Option ℕ} (h : ¬ (k = policyId ∧ q = path)) :
    (s.setObject policyId path value).objects k q = s.objects k q := if_neg h

theorem Stored.setObject {policyId : ℕ} {path : String} {value : Option ℕ} (h : Stored s)
    (hfree : ∀ b ∈ s.blobs.rows, 0 < b.refCount → b.storagePath = some path →
      b.policyId = policyId → False) : Stored (s.setObject policyId path value) := by
  intro b hb hpos q hq
  rw [setObject_ne]
  · exact h b hb hpos q hq
  · rintro ⟨hpolicy, rfl⟩
    exact hfree b hb hpos hq hpolicy

theorem Stored.recount (h : Stored s) (hr : Recounted s.blobs t')
    (hpos : ∀ k x y, s.blobs.get k = some x → t'.get k = some y → 0 < y.refCount → 0 < x.refCount)
    {refs : List ℕ} : Stored { s with blobs := t', refs } := by
  intro y hy hypos path hpath
  have hget := Table.get_of_mem hy
  obtain ⟨x, hx, heq⟩ := hr.row y.id y hget
  rw [heq] at hpath ⊢
  exact h x (Table.mem_of_get hx) (hpos _ x y hx hget hypos) path hpath

theorem Stored.one (h : Stored s) {id : ℕ} {x : FileBlob} {n : ℤ} (hx : s.blobs.get id = some x)
    (hnext : t'.next = s.blobs.next)
    (hget : ∀ k, t'.get k = if k = id then some { x with refCount := n } else s.blobs.get k)
    (hn : n ≤ 0) : Stored { s with blobs := t' } := by
  refine h.recount (recounted_of_one hx hnext hget) fun k y y' hy hy' hpos => ?_
  rw [hget k] at hy'
  split_ifs at hy'
  · cases hy'
    exact absurd hpos (not_lt.mpr hn)
  · rw [hy] at hy'
    exact some.inj hy' ▸ hpos

theorem Moves.rows (hm : Moves cfg s p p' s') (hF : Filed cfg s.blobs) :
    s.blobs.next ≤ s'.blobs.next ∧ ∀ k y, s'.blobs.get k = some y →
      (∃ x, s.blobs.get k = some x ∧ y = { x with refCount := y.refCount }) ∨ s.blobs.next ≤ k := by
  have hsame : ∀ k y, s.blobs.get k = some y →
      (∃ x, s.blobs.get k = some x ∧ y = { x with refCount := y.refCount }) ∨ s.blobs.next ≤ k :=
    fun k y hy => .inl ⟨y, hy, rfl⟩
  have hrecounted : ∀ {blobs : Blobs}, Recounted s.blobs blobs → s.blobs.next ≤ blobs.next ∧
      ∀ k y, blobs.get k = some y →
        (∃ x, s.blobs.get k = some x ∧ y = { x with refCount := y.refCount }) ∨ s.blobs.next ≤ k :=
    fun hr => ⟨hr.next.ge, fun k y hy => .inl (hr.row k y hy)⟩
  cases hm with
  | same _ | linked _ _ _ _ _ | removed _ _ _ | deleted _ _ _ _ _ => exact ⟨le_refl _, hsame⟩
  | committed job b blobs _ _ hok =>
    have hc := commit_ok hF hok
    refine ⟨hc.persisted.shifted.next, fun k y hy => ?_⟩
    rcases hc.origin hy with ⟨x, hx, heq⟩ | ⟨_, rfl, hid, _⟩
    · refine .inl ⟨x, hx, ?_⟩
      rw [heq]
    · exact .inr hid.ge
  | released ids blobs _ _ hok => exact hrecounted hok.recounted
  | claims b blobs _ _ hok =>
    obtain ⟨x, hx, _, hnext, hget⟩ := claim_ok hok
    exact hrecounted (recounted_of_one hx hnext hget)
  | drops b blobs _ _ hok =>
    obtain ⟨hnext, hget⟩ := drop_ok hok
    refine ⟨hnext.ge, fun k y hy => ?_⟩
    rw [hget k] at hy
    split_ifs at hy
    exact hsame k y hy
  | restores b blobs _ _ hok =>
    obtain ⟨x, hx, _, hnext, hget⟩ := restore_ok hok
    exact hrecounted (recounted_of_one hx hnext hget)

theorem Moves.read (hm : Moves cfg s p p' s') (hF : Filed cfg s.blobs)
    (h : b.id < s.blobs.next ∧ ∀ x, s.blobs.get b.id = some x → SameObject x b) :
    b.id < s'.blobs.next ∧ ∀ x, s'.blobs.get b.id = some x → SameObject x b := by
  obtain ⟨hnext, hrow⟩ := hm.rows hF
  refine ⟨lt_of_lt_of_le h.1 hnext, fun y hy => ?_⟩
  rcases hrow b.id y hy with ⟨x, hx, heq⟩ | hle
  · rw [heq]
    exact h.2 x hx
  · have hlt := h.1
    omega

theorem drop_recounted {blobs : Blobs} {id : ℕ} (hok : deleteBlobIfCleanupClaimed t id = some blobs) :
    Recounted t blobs := by
  obtain ⟨hnext, hget⟩ := drop_ok hok
  refine ⟨hnext, fun k y hy => ?_⟩
  rw [hget k] at hy
  split_ifs at hy
  exact ⟨y, hy, rfl⟩

theorem counted_of_one {id : ℕ} {x : FileBlob} {n : ℤ} {refs : List ℕ} (hx : t.get id = some x)
    (hget : ∀ k, t'.get k = if k = id then some { x with refCount := n } else t.get k)
    (hcounted : ∀ y ∈ t.rows, Counted refs y)
    (hnew : Counted refs x → Counted refs { x with refCount := n }) :
    ∀ y ∈ t'.rows, Counted refs y := by
  intro y hy
  have hy' := Table.get_of_mem hy
  rw [hget y.id] at hy'
  split_ifs at hy'
  · cases hy'
    exact hnew (hcounted x (Table.mem_of_get hx))
  · exact hcounted y (mem_of_get hy')

theorem Moves.orderly (hlaw : cfg.Law) (hO : Orderly cfg s) (hm : Moves cfg s p p' s') : Orderly cfg s' := by
  cases hm with
  | same _ => exact hO
  | linked _ _ _ _ _ | removed _ _ _ | deleted _ _ _ _ _ => exact ⟨hO.filed, hO.counted, hO.below⟩
  | committed job b blobs _ _ hok =>
    have hc := commit_ok hO.filed hok
    refine ⟨hc.filed hlaw hO.filed, hc.counted hO.counted hO.below, fun id hid => ?_⟩
    rcases mem_cons.mp hid with rfl | hid
    · exact SerialTable.lt_next_of_get hc.persisted.get
    · exact lt_of_lt_of_le (hO.below id hid) hc.persisted.shifted.next
  | released ids blobs _ hids hok =>
    refine ⟨hO.filed.recount hok.recounted, hok.counted hids hO.counted, fun id hid => ?_⟩
    show id < blobs.next
    rw [hok.next]
    exact hO.below id (diff_subset _ _ hid)
  | claims b blobs _ _ hok =>
    obtain ⟨x, hx, hzero, hnext, hget⟩ := claim_ok hok
    refine ⟨hO.filed.recount (recounted_of_one hx hnext hget), ?_, hnext ▸ hO.below⟩
    refine counted_of_one hx hget hO.counted fun hold => .inr ⟨rfl, ?_⟩
    rcases hold with hold | ⟨hclaim, _⟩
    · rw [hzero] at hold
      exact count_eq_zero.mp (by exact_mod_cast hold.symm)
    · unfold blobCleanupClaimedRefCount at hclaim
      omega
  | drops b blobs _ _ hok =>
    have hr := drop_recounted hok
    obtain ⟨hnext, hget⟩ := drop_ok hok
    refine ⟨hO.filed.recount hr, fun y hy => ?_, hnext ▸ hO.below⟩
    have hy' := Table.get_of_mem hy
    rw [hget y.id] at hy'
    split_ifs at hy'
    exact hO.counted y (Table.mem_of_get hy')
  | restores b blobs _ _ hok =>
    obtain ⟨x, hx, hclaim, hnext, hget⟩ := restore_ok hok
    refine ⟨hO.filed.recount (recounted_of_one hx hnext hget), ?_, hnext ▸ hO.below⟩
    refine counted_of_one hx hget hO.counted fun hold => .inl ?_
    rcases hold with hold | ⟨_, hnot⟩
    · unfold blobCleanupClaimedRefCount at hclaim
      omega
    · show (0 : ℤ) = _
      rw [count_eq_zero_of_not_mem hnot]
      rfl

/-- **No step takes the object of a referenced row away.** -/
theorem Moves.stored (hO : Orderly cfg s) (hS : Stored s) (hA : Cleans s p) (hm : Moves cfg s p p' s') : Stored s' := by
  cases hm with
  | same _ => exact hS
  | linked policyId path size _ habsent =>
    refine hS.setObject fun b hb hpos hpath hpolicy => ?_
    have hobject := hS b hb hpos path hpath
    rw [hpolicy, habsent] at hobject
    simp at hobject
  | removed job _ hrow =>
    -- a row at the path of the content has its key, and there is none
    refine hS.setObject fun b hb _ hpath hpolicy => ?_
    obtain ⟨hhash, hstored⟩ := hO.filed.owned b hb job.body hpath
    unfold State.hasRow at hrow
    rw [List.any_eq_false] at hrow
    exact hrow b hb (decide_eq_true ⟨hhash, hpolicy, hstored⟩)
  | deleted b path hb _ hpath =>
    -- the only row at the path is the claimed one
    obtain ⟨x, hx, hclaim⟩ := hA.claimed b hb
    obtain ⟨hpolicy, hxpath⟩ := (hA.read b (Pc.read_of_claimed hb)).2 x hx
    refine hS.setObject fun y hy hpos hypath hypolicy => ?_
    have hsame : y = x := hO.filed.paths y hy x (mem_of_get hx) path hypath
      (hxpath.trans hpath) (hypolicy.trans hpolicy.symm)
    unfold blobCleanupClaimedRefCount at hclaim
    rw [hsame] at hpos
    omega
  | committed job b blobs _ hobject hok =>
    have hc := commit_ok hO.filed hok
    intro y hy hpos path hpath
    have hy' := Table.get_of_mem hy
    by_cases hid : y.id = b.id
    · obtain rfl : y = b := some.inj ((hid ▸ hy').symm.trans hc.persisted.get)
      obtain rfl : cfg.path job = path := some.inj (hc.row.storagePath.symm.trans hpath)
      rw [hc.row.policyId, hc.row.size]
      exact hobject
    · rcases hc.origin hy' with ⟨x, hx, heq⟩ | ⟨_, hyb, _, _⟩
      · have hxy : y = x := by
          rw [heq]
          simp [oneRef, hid]
        rw [hxy] at hpos hpath ⊢
        exact hS x (Table.mem_of_get hx) hpos path hpath
      · exact absurd hyb hid
  | released ids blobs _ _ hok =>
    refine hS.recount hok.recounted fun k x y hx hy hpos => ?_
    rw [hok.get k, hx, map_some] at hy
    have hcount := congrArg FileBlob.refCount (some.inj hy)
    by_contra hle
    split_ifs at hcount with hzero
    · omega
    · simp only [flooredDecrement] at hcount
      split_ifs at hcount with hfloor <;> omega
  | claims b blobs _ _ hok =>
    obtain ⟨x, hx, _, hnext, hget⟩ := claim_ok hok
    exact hS.one hx hnext hget (by decide)
  | drops b blobs _ _ hok =>
    obtain ⟨_, hget⟩ := drop_ok hok
    refine hS.recount (drop_recounted hok) fun k y y' hy hy' hpos => ?_
    rw [hget k] at hy'
    split_ifs at hy'
    rw [hy] at hy'
    exact some.inj hy' ▸ hpos
  | restores b blobs _ _ hok =>
    obtain ⟨x, hx, _, hnext, hget⟩ := restore_ok hok
    exact hS.one hx hnext hget le_rfl

theorem Moves.claimed (hO : Orderly cfg s) (hm : Moves cfg s p p' s') (hne : ∀ b', p.claimed = some b' →
    b'.id ≠ b.id) (h : ∃ x, s.blobs.get b.id = some x ∧ x.refCount = blobCleanupClaimedRefCount) :
    ∃ x, s'.blobs.get b.id = some x ∧ x.refCount = blobCleanupClaimedRefCount := by
  obtain ⟨x, hx, hclaim⟩ := id h
  cases hm with
  | same _ | linked _ _ _ _ _ | removed _ _ _ | deleted _ _ _ _ _ => exact h
  | committed job b' blobs _ _ hok =>
    have hc := commit_ok hO.filed hok
    have hzero : oneRef b'.id b.id = 0 := by
      by_contra hd
      have hpos := hc.persisted.shifted.active b.id x hx hd
      unfold blobCleanupClaimedRefCount at hclaim
      omega
    refine ⟨_, hc.persisted.shifted.old b.id x hx, ?_⟩
    show x.refCount + oneRef b'.id b.id = _
    rw [hzero, add_zero, hclaim]
  | released ids blobs _ hids hok =>
    have hnot : b.id ∉ s.refs := by
      have hid : x.id = b.id := key_of_get hx
      rcases hO.counted x (mem_of_get hx) with hcount | ⟨_, hnot⟩
      · unfold blobCleanupClaimedRefCount at hclaim
        omega
      · exact hid ▸ hnot
    have hzero : ids.count b.id = 0 := by
      have hle := hids.count_le b.id
      have hrefs := count_eq_zero_of_not_mem hnot
      omega
    refine ⟨x, ?_, hclaim⟩
    show blobs.get b.id = some x
    rw [hok.get, hx, map_some, if_pos hzero]
  | claims b' blobs _ _ hok =>
    obtain ⟨y, hy, hzero, _, hget⟩ := claim_ok hok
    refine ⟨x, ?_, hclaim⟩
    show blobs.get b.id = some x
    rw [hget, if_neg, hx]
    intro hid
    rw [← hid, hx] at hy
    rw [some.inj hy, hzero] at hclaim
    simp [blobCleanupClaimedRefCount] at hclaim
  | drops b' blobs hb _ hok =>
    obtain ⟨_, hget⟩ := drop_ok hok
    refine ⟨x, ?_, hclaim⟩
    show blobs.get b.id = some x
    rw [hget, if_neg (Ne.symm (hne b' hb)), hx]
  | restores b' blobs hb _ hok =>
    obtain ⟨_, _, _, _, hget⟩ := restore_ok hok
    refine ⟨x, ?_, hclaim⟩
    show blobs.get b.id = some x
    rw [hget, if_neg (Ne.symm (hne b' hb)), hx]

theorem Moves.own (hO : Orderly cfg s) (hA : Cleans s p) (hm : Moves cfg s p p' s') : Cleans s' p' := by
  have haway : p'.read = none → Cleans s' p' := by
    intro hp
    refine ⟨?_, ?_⟩
    · simp [hp]
    · simp [Pc.claimed_of_read hp]
  cases hm with
  | same hp =>
    cases hp with
    | away hread => exact haway hread
    | on hread hclaimed => exact ⟨hread ▸ hA.read, hclaimed ▸ hA.claimed⟩
    | reads b hread hclaimed hget =>
      refine ⟨fun b' hb' => ?_, by simp [hclaimed]⟩
      obtain rfl : b = b' := some.inj (hread.symm.trans hb')
      refine ⟨SerialTable.lt_next_of_get hget, fun x hx => ?_⟩
      obtain rfl : b = x := some.inj (hget.symm.trans hx)
      exact ⟨rfl, rfl⟩
  | linked _ _ _ hp _ | removed _ hp _ | committed _ _ _ hp _ _ | released _ _ hp _ _ | drops _ _ _ hp _
  | restores _ _ _ hp _ => exact haway hp
  | deleted b path hb hp _ =>
    have hread : p'.read = p.read := (Pc.read_of_claimed hp).trans (Pc.read_of_claimed hb).symm
    have hclaimed : p'.claimed = p.claimed := hp.trans hb.symm
    exact ⟨fun b' hb' => hA.read b' (hread ▸ hb'), fun b' hb' => hA.claimed b' (hclaimed ▸ hb')⟩
  | claims b blobs hb hp hok =>
    have hclaims : Moves cfg s p p' { s with blobs } := .claims b blobs hb hp hok
    have hknown := hclaims.read hO.filed (hA.read b hb)
    obtain ⟨x, hx, _, _, hget⟩ := claim_ok hok
    refine ⟨fun b' hb' => ?_, fun b' hb' => ?_⟩
    · obtain rfl : b = b' := some.inj ((Pc.read_of_claimed hp).symm.trans hb')
      exact hknown
    · obtain rfl : b = b' := some.inj (hp.symm.trans hb')
      exact ⟨_, (hget b.id).trans (if_pos rfl), rfl⟩

theorem Moves.other (hO : Orderly cfg s) (hm : Moves cfg s p p' s') (hq : Cleans s q) (hpq : Apart p q) : Cleans s' q :=
  ⟨fun b hb => hm.read hO.filed (hq.read b hb),
    fun b hb => hm.claimed hO (fun b' hb' => hpq b' b hb' hb) (hq.claimed b hb)⟩

theorem Moves.apart (hm : Moves cfg s p p' s') (hq : Cleans s q) (hpq : Apart p q) : Apart p' q := by
  have haway : p'.claimed = none → Apart p' q := by
    intro hp b b' hb
    simp [hp] at hb
  have hon : p'.claimed = p.claimed → Apart p' q := fun hp b b' hb => hpq b b' (hp ▸ hb)
  cases hm with
  | same hp =>
    cases hp with
    | away hread => exact haway (Pc.claimed_of_read hread)
    | on _ hclaimed => exact hon hclaimed
    | reads _ _ hclaimed _ => exact haway hclaimed
  | linked _ _ _ hp _ | removed _ hp _ | committed _ _ _ hp _ _ | released _ _ hp _ _ | drops _ _ _ hp _
  | restores _ _ _ hp _ => exact haway (Pc.claimed_of_read hp)
  | deleted b path hb hp _ => exact hon (hp.trans hb.symm)
  | claims b blobs hb hp hok =>
    -- the row counted zero, so nobody had claimed it
    intro b1 b2 hb1 hb2 hid
    obtain rfl : b = b1 := some.inj (hp.symm.trans hb1)
    obtain ⟨x, hx, hzero, _, _⟩ := claim_ok hok
    obtain ⟨y, hy, hclaim⟩ := hq.claimed b2 hb2
    rw [← hid, hx] at hy
    rw [← some.inj hy, hzero] at hclaim
    simp [blobCleanupClaimedRefCount] at hclaim

theorem Apart.symm (h : Apart p q) : Apart q p := fun b b' hb hb' => Ne.symm (h b' b hb' hb)

end

/-- **No referenced content is lost**, in every state of a run in which what was checked still holds
when it is acted upon. -/
theorem referenced_content_stored {s₀ : State} {c : Config State (Pc κ)} (hlaw : cfg.Law)
    (horderly : Orderly cfg s₀) (hstored : Stored s₀)
    (h : Reach (system cfg) (StillHolds cfg) (start s₀) c) : Stored c.shared := by
  have hc : Holds (fun s => Orderly cfg s ∧ Stored s) Cleans Apart c := by
    refine Reach.owicki ?_ ?_ ?_ h
    · intro s s' p p' a hI hA hg hstep
      have hm := step_moves hg hstep
      exact ⟨⟨hm.orderly hlaw hI.1, hm.stored hI.1 hI.2 hA⟩, hm.own hI.1 hA⟩
    · intro s s' p p' q a hI _ hq hpq _ hg hstep
      have hm := step_moves hg hstep
      have hpq' := hm.apart hq hpq
      exact ⟨hm.other hI.1 hq hpq, hpq', hpq'.symm⟩
    · refine ⟨⟨horderly, hstored⟩, fun i => ⟨?_, ?_⟩, fun i j _ b b' hb => ?_⟩
      · simp [start, Pc.read, Pc.claimed]
      · simp [start, Pc.claimed]
      · simp [start, Pc.claimed] at hb
  exact hc.shared.2

/-! ### Runs -/

/-- One content of one byte. -/
def oneByte : Setup Unit where
  hash _ := "ca978112"
  length _ := 1
  storagePathFromBlobKey key := "ca/97/" ++ key

def emptyState : State := { blobs := .empty, refs := [], objects := fun _ _ => none }

def storeByte : Act Unit := .store ⟨(), 1⟩

theorem oneByte_law : oneByte.Law := ⟨fun _ _ _ => rfl, fun _ _ _ => rfl⟩

theorem emptyState_orderly : Orderly oneByte emptyState := by
  refine ⟨⟨?_, ?_, ?_⟩, ?_, ?_⟩ <;> intro x hx <;> exact absurd hx not_mem_nil

theorem emptyState_stored : Stored emptyState := fun _ hb => absurd hb not_mem_nil

/-- Two stores share the object; both versions go, a cleanup collects the row and the object, and the
content is stored again. -/
def storedTwice : List (ℕ × Act Unit) :=
  [(0, storeByte), (1, storeByte), (0, .ok), (1, .ok), (0, .ok), (1, .ok), (0, .ok), (1, .lost),
    (2, .deleteVersion 1), (3, .purge [1]), (4, .cleanup 1), (4, .ok), (4, .ok), (4, .ok),
    (5, storeByte), (5, .linkCopy), (5, .ok)]

theorem referenced_content_stored_twice : ∃ c, Reach (system oneByte) (StillHolds oneByte) (start emptyState) c ∧
      c.shared.blobs.rows.map FileBlob.refCount = [1] ∧ c.shared.refs = [2] ∧ Stored c.shared := by
  have hrun : ((system oneByte).run (StillHolds oneByte) (start emptyState) storedTwice).isSome := by
    decide
  have hreach := reach_run_get hrun
  exact ⟨_, hreach, rfl, rfl, referenced_content_stored oneByte oneByte_law emptyState_orderly emptyState_stored hreach⟩

/-- Worker 0 made the link and its transaction fails; it finds no row, worker 1 commits its own with
the same object, and worker 0 removes the object. -/
def rolledBackUnder : List (ℕ × Act Unit) :=
  [(0, storeByte), (1, storeByte), (0, .ok), (0, .ok), (1, .ok), (1, .ok), (0, .error), (0, .ok), (1, .ok), (0, .ok)]

/-- **A rollback removes the object of a committed row.** -/
theorem committed_content_lost :
    ¬ ∀ (cfg : Setup Unit) (s₀ : State) (c : Config State (Pc Unit)), cfg.Law → Orderly cfg s₀ →
      Stored s₀ → Reach (system cfg) free (start s₀) c → Stored c.shared := by
  intro hall
  have hrun : ((system oneByte).run free (start emptyState) rolledBackUnder).isSome := by decide
  have hstored := hall oneByte emptyState _ oneByte_law emptyState_orderly emptyState_stored (reach_run_get hrun)
  have hobject := hstored ⟨1, "ca978112", 1, .stored, some "ca/97/ca978112", 1, 1⟩
    (mem_singleton.mpr rfl) one_pos "ca/97/ca978112" rfl
  exact nomatch hobject

end AsterDrive.Storage.DedupStore
