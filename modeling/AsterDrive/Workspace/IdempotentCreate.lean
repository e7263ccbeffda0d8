import AsterDrive.Lib.Interleave
import AsterDrive.Workspace.Runs

/-!
# IdempotentCreate — empty files that are created once per idempotency key

`create_empty_transactional` keeps a row of `file_create_idempotencies` for every key that was used:
the actor and the workspace, the hash of the key, the fingerprint of the request and, once the file
exists, its id. A request looks its row up, and the rest of its transaction acts on what it saw: it
replays the result, refuses another fingerprint, or inserts the row, creates the file and completes
the row. The namespace lock is left out here; it only forbids interleavings.

A request may fail at any statement, and its commit may succeed while the answer is an error.
`created` and `answers` are ghosts: the committed creations, and what the requests were told.
-/

namespace AsterDrive.Db.IdempotentCreate

open Interleave List Option List.Subset

inductive WorkspaceKind
  | personal | team
  deriving DecidableEq

structure FileCreateIdempotencyScope where
  actorUserId : ℕ
  workspaceKind : WorkspaceKind
  workspaceId : ℕ
  deriving DecidableEq

/-- The `idempotency_scope` of a storage scope. -/
def idempotencyScope : WorkspaceStorageScope → FileCreateIdempotencyScope
  | .personal userId => { actorUserId := userId, workspaceKind := .personal, workspaceId := userId }
  | .team teamId actorUserId => { actorUserId, workspaceKind := .team, workspaceId := teamId }

/-- What the unique index `idx_file_create_idempotencies_scope_key` is about. -/
structure Key where
  scope : FileCreateIdempotencyScope
  keyHash : String
  deriving DecidableEq

/-- `file_create_idempotency::Model`. -/
structure FileCreateIdempotency where
  id : ℕ
  key : Key
  requestFingerprint : String
  resultFileId : Option ℕ
  createdAt : ℕ
  expiresAt : ℕ

abbrev Claims := SerialTable FileCreateIdempotency.id

/-- `FILE_CREATE_IDEMPOTENCY_RETENTION`, 24 hours in milliseconds. -/
def fileCreateIdempotencyRetention : ℕ := 86400000

/-- `find`. -/
def find (t : Claims) (key : Key) : Option FileCreateIdempotency := t.rows.find? fun r => r.key = key

/-- `create_claim`; the unique index may refuse the row. -/
def createClaim (t : Claims) (key : Key) (requestFingerprint : String) (now : ℕ) :
    Except AsterError (FileCreateIdempotency × Claims) :=
  if t.rows.any fun r => r.key = key then
    .error (uniqueViolation "file_create_idempotencies.scope_key")
  else
    let mk := fun id => ({ id, key, requestFingerprint, resultFileId := none, createdAt := now
                           expiresAt := now + fileCreateIdempotencyRetention } :
                           FileCreateIdempotency)
    .ok (mk t.next, t.insert mk fun _ => rfl)

/-- `complete`. -/
def complete (t : Claims) (claim : FileCreateIdempotency) (resultFileId : ℕ) : Claims :=
  t.updateRows (fun r => r.id = claim.id) (fun r => { r with resultFileId := some resultFileId }) fun _ => rfl

/-- `delete`. -/
def delete (t : Claims) (id : ℕ) : Claims := t.deleteRows fun r => r.id = id

/-- `delete_expired`. -/
def deleteExpired (t : Claims) (now : ℕ) : Claims := t.deleteRows fun r => r.expiresAt ≤ now

/-- `ON DELETE SET NULL` of `result_file_id`, once the files are `files`. -/
def setNullResults (t : Claims) (files : Files) : Claims :=
  t.updateRows (fun r => r.resultFileId.any fun k => (files.get k).isNone)
    (fun r => { r with resultFileId := none }) fun _ => rfl

/-! ### The transaction -/

/-- The request as the transaction sees it; `idempotency` is the key hash and the fingerprint. -/
structure Request where
  scope : WorkspaceStorageScope
  filename : String
  nameMode : NewFileNameMode
  idempotency : Option (String × String)

def Request.key (req : Request) : Option Key :=
  req.idempotency.map fun p => { scope := idempotencyScope req.scope, keyHash := p.1 }

/-- What the folder checks, the creation of missing parent folders and the policy resolution leave
for the file row. -/
structure Resolved where
  folderId : Option ℕ
  policyId : ℕ
  mime : String
  now : ℕ
  etag : String

structure EmptyFileCreateResult where
  file : File
  replayed : Bool

structure Store where
  db : Db
  claims : Claims

def conflict (message : String) : AsterError := .conflict { message }

def purgedResult : AsterError := conflict "idempotency result file was purged during its retention window"

/-- An unexpired row was found. -/
def replay (s : Store) (existing : FileCreateIdempotency) (fingerprint : String) :
    Except AsterError (EmptyFileCreateResult × Store) :=
  if existing.requestFingerprint ≠ fingerprint then
    .error (conflict "idempotency key was already used with a different create-empty request")
  else match existing.resultFileId with
    | none => .error purgedResult
    | some resultFileId =>
      match s.db.files.get resultFileId with
      | none => .error purgedResult
      | some file => .ok ({ file, replayed := true }, s)

/-- The file, and the completion of its claim. -/
def createWith (nextCopyName : String → String) (req : Request)
    (resolved : Except AsterError Resolved) (claim : Option FileCreateIdempotency) (s : Store) :
    Except AsterError (EmptyFileCreateResult × Store) := do
  let r ← resolved
  let (file, db) ← createEmpty nextCopyName req.scope r.folderId req.filename req.nameMode r.policyId
    r.mime r.now r.etag s.db
  let claims := claim.elim s.claims fun c => complete s.claims c file.id
  .ok ({ file, replayed := false }, { db, claims })

def claimAndCreate (nextCopyName : String → String) (req : Request) (key : Key)
    (fingerprint : String) (claimNow : ℕ) (resolved : Except AsterError Resolved) (s : Store) :
    Except AsterError (EmptyFileCreateResult × Store) := do
  let (claim, claims) ← createClaim s.claims key fingerprint claimNow
  createWith nextCopyName req resolved (some claim) { s with claims }

/-- The statements of `create_empty_transactional` after the lookup that gave `found`; `now` is the
time of the expiry test and `claimNow` that of the claim. -/
def afterLookup (nextCopyName : String → String) (req : Request)
    (found : Option FileCreateIdempotency) (now claimNow : ℕ)
    (resolved : Except AsterError Resolved) (s : Store) :
    Except AsterError (EmptyFileCreateResult × Store) :=
  match req.idempotency with
  | none => createWith nextCopyName req resolved none s
  | some (keyHash, fingerprint) =>
    let key : Key := { scope := idempotencyScope req.scope, keyHash }
    match found with
    | none => claimAndCreate nextCopyName req key fingerprint claimNow resolved s
    | some existing =>
      if existing.expiresAt ≤ now then
        claimAndCreate nextCopyName req key fingerprint claimNow resolved
          { s with claims := delete s.claims existing.id }
      else replay s existing fingerprint

/-! ### Requests that interleave -/

structure State where
  store : Store
  created : List (Request × ℕ) := []
  answers : List (Request × Except AsterError EmptyFileCreateResult) := []

inductive Pc
  | idle
  | asked (req : Request)
  | looked (req : Request) (found : Option FileCreateIdempotency)

/-- How a transaction that got through its statements ends. -/
inductive Outcome
  | commit
  | commitUncertain (e : AsterError)
  | abort (e : AsterError)
  | deadlock

inductive Act
  | request (req : Request)
  | lookup
  | finish (now claimNow : ℕ) (resolved : Except AsterError Resolved) (outcome : Outcome)
  | fail (e : AsterError)
  | elsewhere (db : Db)
  | cleanup (now : ℕ)

/-- The entry of a committed transaction in `created`. -/
def recordCreated (req : Request) (r : EmptyFileCreateResult) (log : List (Request × ℕ)) : List (Request × ℕ) :=
  if r.replayed then log else (req, r.file.id) :: log

/-- The end of a transaction; a deadlock is tried again. -/
def settle (s : State) (req : Request) : Except AsterError (EmptyFileCreateResult × Store) → Outcome → State × Pc
  | .error e, _ => ({ s with answers := (req, .error e) :: s.answers }, .idle)
  | .ok (r, store), .commit =>
    ({ store, created := recordCreated req r s.created
       answers := (req, .ok r) :: s.answers }, .idle)
  | .ok (r, store), .commitUncertain e =>
    ({ store, created := recordCreated req r s.created
       answers := (req, .error e) :: s.answers }, .idle)
  | .ok _, .abort e => ({ s with answers := (req, .error e) :: s.answers }, .idle)
  | .ok _, .deadlock => (s, .asked req)

variable (nextCopyName : String → String)

def step (a : Act) (s : State) (p : Pc) : Option (State × Pc) :=
  match p, a with
  | .idle, .request req => some (s, .asked req)
  | .idle, .elsewhere db =>
    some ({ s with store := { db, claims := setNullResults s.store.claims db.files } }, .idle)
  | .idle, .cleanup now =>
    some ({ s with store := { s.store with claims := deleteExpired s.store.claims now } }, .idle)
  | .asked req, .lookup => some (s, .looked req (req.key.bind (find s.store.claims)))
  | .looked req found, .finish now claimNow resolved outcome =>
    some (settle s req (afterLookup nextCopyName req found now claimNow resolved s.store) outcome)
  | .asked req, .fail e => some ({ s with answers := (req, .error e) :: s.answers }, .idle)
  | .looked req _, .fail e => some ({ s with answers := (req, .error e) :: s.answers }, .idle)
  | _, _ => none

def system : System State Pc Act := ⟨step nextCopyName⟩

def start (store : Store) : Config State Pc := { shared := { store }, proc := fun _ => .idle }

/-! ### What a transaction did -/

section

variable {nextCopyName} {s s' : Store} {req : Request} {found : Option FileCreateIdempotency}
  {now claimNow : ℕ} {resolved : Except AsterError Resolved} {res : EmptyFileCreateResult} {key : Key}
  {fingerprint : String}

theorem find_some {t : Claims} {r : FileCreateIdempotency} (h : find t key = some r) : r ∈ t.rows ∧ r.key = key := by
  have hkey := find?_some h
  exact ⟨mem_of_find?_eq_some h, of_decide_eq_true hkey⟩

/-- The row of a creation that was committed. -/
def completedRow (key : Key) (fingerprint : String) (claimNow fileId id : ℕ) :
    FileCreateIdempotency :=
  { id, key, requestFingerprint := fingerprint, resultFileId := some fileId, createdAt := claimNow
    expiresAt := claimNow + fileCreateIdempotencyRetention }

/-- The key had no row, and now has one that names the new file. -/
structure Claimed (key : Key) (fingerprint : String) (fileId : ℕ) (t t' : Claims) : Prop where
  unused : ∀ r ∈ t.rows, r.key ≠ key
  rows : ∃ claimNow, t'.rows = t.rows ++ [completedRow key fingerprint claimNow fileId t.next]
  next : t'.next = t.next + 1

theorem createWith_ok {claim : Option FileCreateIdempotency}
    (h : createWith nextCopyName req resolved claim s = .ok (res, s')) :
    res.replayed = false ∧ s'.claims = claim.elim s.claims fun c => complete s.claims c res.file.id := by
  obtain ⟨r, _, h1⟩ := bind_ok h
  obtain ⟨⟨file, db⟩, _, h2⟩ := bind_ok h1
  cases h2
  exact ⟨rfl, rfl⟩

theorem claimAndCreate_ok (h : claimAndCreate nextCopyName req key fingerprint claimNow resolved s = .ok (res, s')) :
    res.replayed = false ∧ Claimed key fingerprint res.file.id s.claims s'.claims := by
  obtain ⟨⟨claim, claims⟩, hclaim, h1⟩ := bind_ok h
  obtain ⟨hrep, hclaims⟩ := createWith_ok h1
  unfold createClaim at hclaim
  split_ifs at hclaim with hany
  cases hclaim
  have hinsert : s'.claims = s.claims.insert (completedRow key fingerprint claimNow res.file.id) fun _ => rfl := by
    rw [hclaims]
    -- the completion only concerns the row that was just inserted
    refine SerialTable.updateRows_insert _ _ _ _ ?_ ?_ rfl
    · intro r hr
      have hlt := s.claims.below r hr
      exact decide_eq_false (by show r.id ≠ s.claims.next; omega)
    · exact decide_eq_true rfl
  refine ⟨hrep, ?_, ⟨claimNow, ?_⟩, ?_⟩
  · intro r hr hkey
    refine hany (List.any_eq_true.mpr ⟨r, hr, ?_⟩)
    exact decide_eq_true hkey
  all_goals
    rw [hinsert]
    rfl

theorem replay_ok {existing : FileCreateIdempotency} (h : replay s existing fingerprint = .ok (res, s')) :
    s' = s ∧ res.replayed = true ∧ existing.requestFingerprint = fingerprint ∧
      existing.resultFileId = some res.file.id := by
  unfold replay at h
  split_ifs at h with hfp
  split at h
  · simp at h
  · rename_i k hk
    split at h
    · simp at h
    · rename_i file hfile
      cases h
      have hid : file.id = k := Table.key_of_get hfile
      exact ⟨rfl, rfl, not_not.mp hfp, by rw [hk, hid]⟩

/-- What a transaction with the key `key` did: it created the file and its row, the expired row that
it saw deleted before, or it replayed the row that it saw. -/
inductive Effect (key : Key) (fingerprint : String) (found : Option FileCreateIdempotency) (now : ℕ)
    (res : EmptyFileCreateResult) (t t' : Claims) : Prop
  | fresh (hfound : found = none) (hrep : res.replayed = false) (hnew : Claimed key fingerprint res.file.id t t')
  | renewed (old : FileCreateIdempotency) (hfound : found = some old) (hold : old.expiresAt ≤ now)
      (hrep : res.replayed = false)
      (hnew : Claimed key fingerprint res.file.id (delete t old.id) t')
  | replayed (old : FileCreateIdempotency) (hfound : found = some old) (hold : now < old.expiresAt)
      (hrep : res.replayed = true) (heq : t' = t) (hfp : old.requestFingerprint = fingerprint)
      (hres : old.resultFileId = some res.file.id)

theorem afterLookup_keyless (hkey : req.idempotency = none)
    (h : afterLookup nextCopyName req found now claimNow resolved s = .ok (res, s')) :
    res.replayed = false ∧ s'.claims = s.claims := by
  unfold afterLookup at h
  rw [hkey] at h
  exact createWith_ok h

theorem afterLookup_ok {keyHash : String} (hkey : req.idempotency = some (keyHash, fingerprint))
    (h : afterLookup nextCopyName req found now claimNow resolved s = .ok (res, s')) :
    Effect ⟨idempotencyScope req.scope, keyHash⟩ fingerprint found now res s.claims s'.claims := by
  unfold afterLookup at h
  rw [hkey] at h
  rcases found with _ | old
  · obtain ⟨hrep, hnew⟩ := claimAndCreate_ok h
    exact .fresh rfl hrep hnew
  · simp only at h
    split_ifs at h with hold
    · obtain ⟨hrep, hnew⟩ := claimAndCreate_ok h
      exact .renewed old rfl hold hrep hnew
    · obtain ⟨rfl, hrep, hfp, hres⟩ := replay_ok h
      exact .replayed old rfl (not_le.mp hold) hrep rfl hfp hres

end

/-! ### Once per key and window

`fresh` separates the rows that were there before from those of the run. A row from before counts as
run out, and a row of the run as not: the requests fall into one retention window. -/

/-- The row is seen at `now` inside the window. -/
def inWindow (fresh now : ℕ) (r : FileCreateIdempotency) : Bool :=
  if r.id < fresh then r.expiresAt ≤ now else now < r.createdAt + fileCreateIdempotencyRetention

/-- No request and no maintenance looks at the key's row outside the window. -/
def withinRetention (k : Key) (fresh : ℕ) (s : State) : Pc → Act → Bool
  | .looked _ (some r), .finish now _ _ _ => r.key ≠ k ∨ inWindow fresh now r
  | _, .cleanup now => s.store.claims.rows.all fun r => r.key ≠ k ∨ r.id < fresh ∨ inWindow fresh now r
  | _, _ => true

def WithinRetention (k : Key) (fresh : ℕ) (s : State) (p : Pc) (a : Act) : Prop := withinRetention k fresh s p a = true

instance (k : Key) (fresh : ℕ) (s : State) (p : Pc) (a : Act) :
    Decidable (WithinRetention k fresh s p a) := inferInstanceAs (Decidable (_ = true))

def Request.fingerprint (req : Request) : Option String := req.idempotency.map Prod.snd

/-- The creations under a key. -/
def createdUnder (k : Key) (log : List (Request × ℕ)) : List (Request × ℕ) := log.filter fun p => p.1.key = some k

/-- The row belongs to a creation: it has its fingerprint and names its file, if it names one. -/
def Backed (k : Key) (log : List (Request × ℕ)) (r : FileCreateIdempotency) : Prop :=
  ∃ p ∈ createdUnder k log, p.1.fingerprint = some r.requestFingerprint ∧ ∀ n, r.resultFileId = some n → n = p.2

/-- The rows of the run are exactly the rows of its creations. -/
structure Once (k : Key) (fresh : ℕ) (s : State) : Prop where
  numbered : fresh ≤ s.store.claims.next
  expiry : ∀ r ∈ s.store.claims.rows, fresh ≤ r.id → r.expiresAt = r.createdAt + fileCreateIdempotencyRetention
  backed : ∀ r ∈ s.store.claims.rows, r.key = k → fresh ≤ r.id → Backed k s.created r
  kept : ∀ p ∈ createdUnder k s.created, ∃ r ∈ s.store.claims.rows, r.key = k ∧ fresh ≤ r.id
  single : (createdUnder k s.created).length ≤ 1
  answered : ∀ p ∈ s.answers, p.1.key = some k → ∀ res, p.2 = .ok res →
    ∃ q ∈ createdUnder k s.created, q.1.fingerprint = p.1.fingerprint ∧ q.2 = res.file.id

/-- What a request saw of a row stays true: its number stays with its key, and a row of the run stays
that of a creation. -/
def Saw (k : Key) (fresh : ℕ) (s : State) : Pc → Prop
  | .looked req (some r) => req.key = some r.key ∧ r.id < s.store.claims.next ∧
      (∀ r' ∈ s.store.claims.rows, r'.id = r.id → r'.key = r.key) ∧
      (r.key = k → fresh ≤ r.id → Backed k s.created r ∧ r.expiresAt = r.createdAt + fileCreateIdempotencyRetention)
  | _ => True

/-- How the tables move on: creations are added, and numbers are not given to another key. -/
structure Later (s s' : State) : Prop where
  created : s.created ⊆ s'.created
  next : s.store.claims.next ≤ s'.store.claims.next
  rows : ∀ r' ∈ s'.store.claims.rows, r'.id < s.store.claims.next →
    ∃ r ∈ s.store.claims.rows, r.id = r'.id ∧ r.key = r'.key

section

variable {k : Key} {fresh : ℕ} {log log' : List (Request × ℕ)} {r : FileCreateIdempotency} {s s' : State}

theorem Backed.mono (h : Backed k log r) (hsub : log ⊆ log') : Backed k log' r := by
  obtain ⟨p, hp, hfp, hres⟩ := h
  obtain ⟨hmem, hkey⟩ := mem_filter.mp hp
  exact ⟨p, mem_filter.mpr ⟨hsub hmem, hkey⟩, hfp, hres⟩

variable {p : Pc}

theorem Saw.later (h : Saw k fresh s p) (hl : Later s s') : Saw k fresh s' p := by
  cases p with
  | looked req found =>
    cases found with
    | none => trivial
    | some r =>
      obtain ⟨hkey, hlt, hsame, hrun⟩ := h
      refine ⟨hkey, lt_of_lt_of_le hlt hl.next, ?_, ?_⟩
      · intro r' hr' hid
        obtain ⟨r0, hr0, hid0, hkey0⟩ := hl.rows r' hr' (by omega)
        exact hkey0.symm.trans (hsame r0 hr0 (hid0.trans hid))
      · intro hk hid
        obtain ⟨hbacked, hexp⟩ := hrun hk hid
        exact ⟨hbacked.mono hl.created, hexp⟩
  | idle | asked req => trivial

theorem Later.of_rows (hcreated : s.created ⊆ s'.created) (hnext : s'.store.claims.next = s.store.claims.next)
    (hrows : ∀ r' ∈ s'.store.claims.rows, ∃ r ∈ s.store.claims.rows, r.id = r'.id ∧ r.key = r'.key) :
    Later s s' :=
  ⟨hcreated, hnext.ge, fun r' hr' _ => hrows r' hr'⟩

theorem Later.of_same (hcreated : s.created ⊆ s'.created) (hclaims : s'.store.claims = s.store.claims) : Later s s' :=
  .of_rows hcreated (by rw [hclaims]) fun r' hr' => ⟨r', hclaims ▸ hr', rfl, rfl⟩

variable {req : Request} {n : ℕ}

theorem createdUnder_cons_same (h : req.key = some k) :
    createdUnder k ((req, n) :: log) = (req, n) :: createdUnder k log :=
  filter_cons_of_pos (decide_eq_true h)

theorem createdUnder_cons_other (h : req.key ≠ some k) : createdUnder k ((req, n) :: log) = createdUnder k log := by
  refine filter_cons_of_neg ?_
  rw [decide_eq_true_eq]
  exact h

theorem Once.answer (h : Once k fresh s) {result : Except AsterError EmptyFileCreateResult}
    (hok : req.key = some k → ∀ res, result = .ok res →
      ∃ q ∈ createdUnder k s.created, q.1.fingerprint = req.fingerprint ∧ q.2 = res.file.id) :
    Once k fresh { s with answers := (req, result) :: s.answers } := by
  refine ⟨h.numbered, h.expiry, h.backed, h.kept, h.single, ?_⟩
  intro p hp hkey res hres
  rcases mem_cons.mp hp with rfl | hp
  · exact hok hkey res hres
  · exact h.answered p hp hkey res hres

theorem Once.answerError (h : Once k fresh s) (req : Request) (e : AsterError) :
    Once k fresh { s with answers := (req, .error e) :: s.answers } :=
  h.answer fun _ _ hres => by simp at hres

theorem Once.elsewhere (h : Once k fresh s) (db : Db) :
    Once k fresh { s with store := { db, claims := setNullResults s.store.claims db.files } } := by
  have hrow : ∀ r' ∈ (setNullResults s.store.claims db.files).rows, ∃ r ∈ s.store.claims.rows,
      r' = r ∨ r' = { r with resultFileId := none } := by
    intro r' hr'
    obtain ⟨r, hr, rfl⟩ := SerialTable.mem_updateRows.mp hr'
    refine ⟨r, hr, ?_⟩
    split_ifs
    · exact .inr rfl
    · exact .inl rfl
  refine ⟨h.numbered, ?_, ?_, ?_, h.single, h.answered⟩
  · intro r' hr' hid
    obtain ⟨r, hr, rfl | rfl⟩ := hrow r' hr'
    · exact h.expiry _ hr hid
    · exact h.expiry r hr hid
  · intro r' hr' hkey hid
    obtain ⟨r, hr, rfl | rfl⟩ := hrow r' hr'
    · exact h.backed _ hr hkey hid
    · obtain ⟨p, hp, hfp, _⟩ := h.backed r hr hkey hid
      exact ⟨p, hp, hfp, fun n hn => by simp at hn⟩
  · intro p hp
    obtain ⟨r, hr, hkey, hid⟩ := h.kept p hp
    refine ⟨_, SerialTable.mem_updateRows.mpr ⟨r, hr, rfl⟩, ?_⟩
    split_ifs
    all_goals exact ⟨hkey, hid⟩

variable {now : ℕ}

theorem Once.cleanup (h : Once k fresh s)
    (hwindow : ∀ r ∈ s.store.claims.rows, r.key = k → fresh ≤ r.id → now < r.expiresAt) :
    Once k fresh { s with store := { s.store with claims := deleteExpired s.store.claims now } } := by
  have hrow : ∀ r ∈ (deleteExpired s.store.claims now).rows, r ∈ s.store.claims.rows :=
    fun r hr => (Table.mem_deleteWhere.mp hr).1
  refine ⟨h.numbered, fun r hr => h.expiry r (hrow r hr), fun r hr => h.backed r (hrow r hr), ?_, h.single, h.answered⟩
  intro p hp
  obtain ⟨r, hr, hkey, hid⟩ := h.kept p hp
  have hlater := hwindow r hr hkey hid
  exact ⟨r, Table.mem_deleteWhere.mpr ⟨hr, decide_eq_false (not_le.mpr hlater)⟩, hkey, hid⟩

variable {db : Db}

theorem Once.createKeyless (h : Once k fresh s) (hkey : req.key = none) : Once k fresh
      { s with store := { db, claims := s.store.claims }, created := (req, n) :: s.created } := by
  have hlog : createdUnder k ((req, n) :: s.created) = createdUnder k s.created :=
    createdUnder_cons_other (by simp [hkey])
  refine ⟨h.numbered, h.expiry, ?_, ?_, ?_, ?_⟩
  · intro r hr hk hid
    exact (h.backed r hr hk hid).mono (subset_cons_self _ _)
  · intro p hp
    exact h.kept p (hlog ▸ hp)
  · exact hlog ▸ h.single
  · intro p hp hk res hres
    obtain ⟨q, hq, hrest⟩ := h.answered p hp hk res hres
    exact ⟨q, hlog.symm ▸ hq, hrest⟩

/-- A creation under a key. `t` is the table the claim was inserted into; it has every row of the run
under `k`. -/
theorem Once.create (h : Once k fresh s) {t t' : Claims} {key : Key} {fingerprint : String} (hkey : req.key = some key)
    (hfp : req.fingerprint = some fingerprint) (hnext : t.next = s.store.claims.next)
    (hsub : ∀ r ∈ t.rows, r ∈ s.store.claims.rows)
    (hall : ∀ r ∈ s.store.claims.rows, r.key = k → fresh ≤ r.id → r ∈ t.rows)
    (hnew : Claimed key fingerprint n t t') :
    Once k fresh { s with store := { db, claims := t' }, created := (req, n) :: s.created } := by
  obtain ⟨hnone, ⟨claimNow, hrows⟩, hnext'⟩ := hnew
  have hnum := h.numbered
  have hmem : ∀ r, r ∈ t'.rows ↔ r ∈ t.rows ∨ r = completedRow key fingerprint claimNow n t.next := by
    intro r
    rw [hrows, mem_append, mem_singleton]
  have hgrow : createdUnder k s.created ⊆ createdUnder k ((req, n) :: s.created) :=
    filter_subset _ (subset_cons_self _ _)
  refine ⟨?_, ?_, ?_, ?_, ?_, ?_⟩
  · show fresh ≤ t'.next
    omega
  · intro r hr hid
    rcases (hmem r).mp hr with hr | rfl
    · exact h.expiry r (hsub r hr) hid
    · rfl
  · intro r hr hk hid
    rcases (hmem r).mp hr with hr | rfl
    · exact (h.backed r (hsub r hr) hk hid).mono (subset_cons_self _ _)
    · -- the new row belongs to the new creation
      obtain rfl : key = k := hk
      refine ⟨(req, n), ?_, hfp, fun m hm => (some.inj hm).symm⟩
      rw [createdUnder_cons_same hkey]
      exact mem_cons_self
  · intro p hp
    by_cases hk : key = k
    · subst hk
      refine ⟨_, (hmem _).mpr (.inr rfl), rfl, ?_⟩
      show fresh ≤ t.next
      omega
    · rw [createdUnder_cons_other (by simp [hkey, hk])] at hp
      obtain ⟨r, hr, hrk, hid⟩ := h.kept p hp
      exact ⟨r, (hmem r).mpr (.inl (hall r hr hrk hid)), hrk, hid⟩
  · by_cases hk : key = k
    · subst hk
      -- an earlier creation would have left its row, and the unique index would have refused this one
      have hempty : createdUnder key s.created = [] := by
        rw [eq_nil_iff_forall_not_mem]
        intro p hp
        obtain ⟨r, hr, hrk, hid⟩ := h.kept p hp
        exact hnone r (hall r hr hrk hid) hrk
      rw [createdUnder_cons_same hkey, hempty]
      simp
    · rw [createdUnder_cons_other (by simp [hkey, hk])]
      exact h.single
  · intro p hp hk res hres
    obtain ⟨q, hq, hrest⟩ := h.answered p hp hk res hres
    exact ⟨q, hgrow hq, hrest⟩

/-- The state after a commit, before the answer. -/
def afterCommit (s : State) (req : Request) (res : EmptyFileCreateResult) (store : Store) : State :=
  { s with store, created := recordCreated req res s.created }

/-- The request's own creation, or the one it replays. -/
def Named (k : Key) (s : State) (req : Request) (res : EmptyFileCreateResult) : Prop :=
  req.key = some k → ∃ q ∈ createdUnder k s.created, q.1.fingerprint = req.fingerprint ∧ q.2 = res.file.id

variable {res : EmptyFileCreateResult}

theorem afterCommit_create (store : Store) (hrep : res.replayed = false) :
    afterCommit s req res store = { s with store, created := (req, res.file.id) :: s.created } := by
  unfold afterCommit recordCreated
  rw [hrep]
  rfl

variable {store : Store}

theorem named_create : Named k { s with store, created := (req, res.file.id) :: s.created } req res := by
  intro hkey
  refine ⟨(req, res.file.id), ?_, rfl, rfl⟩
  rw [createdUnder_cons_same hkey]
  exact mem_cons_self

theorem Claimed.later {t t' : Claims} {key : Key} {fingerprint : String} (hnext : t.next = s.store.claims.next)
    (hsub : ∀ r ∈ t.rows, r ∈ s.store.claims.rows) (hnew : Claimed key fingerprint n t t') :
    Later s { s with store := { db, claims := t' }, created := (req, n) :: s.created } := by
  obtain ⟨_, ⟨claimNow, hrows⟩, hnext'⟩ := hnew
  refine ⟨subset_cons_self _ _, ?_, ?_⟩
  · show s.store.claims.next ≤ t'.next
    omega
  · intro r' hr' hlt
    have hr'' : r' ∈ t'.rows := hr'
    rw [hrows, mem_append, mem_singleton] at hr''
    rcases hr'' with hr'' | rfl
    · exact ⟨r', hsub r' hr'', rfl, rfl⟩
    · have hlt' : t.next < s.store.claims.next := hlt
      omega

theorem not_renewed {old : FileCreateIdempotency}
    (hsaw : Saw k fresh s (.looked req (some old))) (hold : old.expiresAt ≤ now)
    (hwindow : old.key = k → inWindow fresh now old = true) :
    ∀ r ∈ s.store.claims.rows, r.key = k → fresh ≤ r.id → r ∈ (delete s.store.claims old.id).rows := by
  intro r hr hrk hid
  refine Table.mem_deleteWhere.mpr ⟨hr, decide_eq_false ?_⟩
  intro heq
  obtain ⟨_, _, hsame, hrun⟩ := hsaw
  have hk : old.key = k := (hsame r hr heq).symm.trans hrk
  have hin := hwindow hk
  have hexp := (hrun hk (heq ▸ hid)).2
  unfold inWindow at hin
  rw [if_neg (by omega), decide_eq_true_eq] at hin
  omega

theorem Once.commit {nextCopyName : String → String}
    {found : Option FileCreateIdempotency} {claimNow : ℕ} {resolved : Except AsterError Resolved}
    (h : Once k fresh s)
    (hsaw : Saw k fresh s (.looked req found))
    (hwindow : ∀ r, found = some r → r.key = k → inWindow fresh now r = true)
    (hok : afterLookup nextCopyName req found now claimNow resolved s.store = .ok (res, store)) :
    Once k fresh (afterCommit s req res store) ∧ Named k (afterCommit s req res store) req res ∧
      Later s (afterCommit s req res store) := by
  obtain ⟨db, claims⟩ := store
  rcases hidem : req.idempotency with _ | ⟨keyHash, fingerprint⟩
  · obtain ⟨hrep, hclaims⟩ := afterLookup_keyless hidem hok
    obtain rfl : claims = s.store.claims := hclaims
    have hkey : req.key = none := by simp [Request.key, hidem]
    rw [afterCommit_create _ hrep]
    exact ⟨h.createKeyless hkey, named_create, .of_same (subset_cons_self _ _) rfl⟩
  · have hkey : req.key = some ⟨idempotencyScope req.scope, keyHash⟩ := by
      simp [Request.key, hidem]
    have hfp : req.fingerprint = some fingerprint := by simp [Request.fingerprint, hidem]
    cases afterLookup_ok hidem hok with
    | fresh hfound hrep hnew =>
      rw [afterCommit_create _ hrep]
      exact ⟨h.create hkey hfp rfl (fun _ hr => hr) (fun _ hr _ _ => hr) hnew, named_create,
        hnew.later rfl fun _ hr => hr⟩
    | renewed old hfound hold hrep hnew =>
      obtain rfl := hfound
      have hsub : ∀ r ∈ (delete s.store.claims old.id).rows, r ∈ s.store.claims.rows :=
        fun r hr => (Table.mem_deleteWhere.mp hr).1
      have hnext : (delete s.store.claims old.id).next = s.store.claims.next := rfl
      rw [afterCommit_create _ hrep]
      exact ⟨h.create hkey hfp hnext hsub (not_renewed hsaw hold (hwindow old rfl)) hnew,
        named_create, hnew.later hnext hsub⟩
    | replayed old hfound hold hrep heq hfp' hres =>
      obtain rfl := hfound
      obtain rfl : claims = s.store.claims := heq
      have hsame : afterCommit s req res ⟨db, s.store.claims⟩ = { s with store := ⟨db, s.store.claims⟩ } := by
        unfold afterCommit recordCreated
        rw [hrep]
        rfl
      rw [hsame]
      refine ⟨⟨h.numbered, h.expiry, h.backed, h.kept, h.single, h.answered⟩, ?_, .of_same (refl _) rfl⟩
      -- the row was seen inside the window, so it is one of the run and belongs to a creation
      intro hk
      obtain ⟨hkey', _, _, hrun⟩ := hsaw
      have hold' : old.key = k := some.inj (hkey'.symm.trans hk)
      have hin := hwindow old rfl hold'
      have hid : fresh ≤ old.id := by
        by_contra hlt
        unfold inWindow at hin
        rw [if_pos (by omega), decide_eq_true_eq] at hin
        omega
      obtain ⟨⟨q, hq, hqfp, hqres⟩, _⟩ := hrun hold' hid
      exact ⟨q, hq, by rw [hqfp, hfp, hfp'], (hqres _ hres).symm⟩

/-! ### Every interleaving -/

theorem Once.settle {nextCopyName : String → String}
    {found : Option FileCreateIdempotency} {claimNow : ℕ} {resolved : Except AsterError Resolved}
    (h : Once k fresh s) (hsaw : Saw k fresh s (.looked req found))
    (hwindow : ∀ r, found = some r → r.key = k → inWindow fresh now r = true) {outcome : Outcome}
    {p' : Pc} (hout : settle s req
      (afterLookup nextCopyName req found now claimNow resolved s.store) outcome = (s', p')) :
    Once k fresh s' ∧ Saw k fresh s' p' ∧ Later s s' := by
  rcases hok : afterLookup nextCopyName req found now claimNow resolved s.store with e | ⟨res, store⟩
  · rw [hok] at hout
    cases hout
    exact ⟨h.answerError req e, trivial, .of_same (refl _) rfl⟩
  · obtain ⟨hcommit, hnamed, hlater⟩ := h.commit hsaw hwindow hok
    rw [hok] at hout
    cases outcome with
    | commit =>
      cases hout
      refine ⟨hcommit.answer ?_, trivial, ⟨hlater.created, hlater.next, hlater.rows⟩⟩
      intro hkey res' hres
      cases hres
      exact hnamed hkey
    | commitUncertain e =>
      cases hout
      exact ⟨hcommit.answerError req e, trivial, ⟨hlater.created, hlater.next, hlater.rows⟩⟩
    | abort e =>
      cases hout
      exact ⟨h.answerError req e, trivial, .of_same (refl _) rfl⟩
    | deadlock =>
      cases hout
      exact ⟨h, trivial, .of_same (refl _) rfl⟩

theorem Once.saw_lookup (h : Once k fresh s) (req : Request) :
    Saw k fresh s (.looked req (req.key.bind (find s.store.claims))) := by
  rcases hfound : req.key.bind (find s.store.claims) with _ | r
  · trivial
  · obtain ⟨key, hkey, hfind⟩ := bind_eq_some_iff.mp hfound
    obtain ⟨hmem, hrkey⟩ := find_some hfind
    refine ⟨hkey.trans (congrArg some hrkey.symm), s.store.claims.below r hmem, ?_, ?_⟩
    · intro r' hr' hid
      rw [Table.eq_of_key hr' hmem hid]
    · intro hk hid
      exact ⟨h.backed r hmem hk hid, h.expiry r hmem hid⟩

theorem cleanup_window (h : Once k fresh s) (hg : WithinRetention k fresh s p (.cleanup now)) :
    ∀ r ∈ s.store.claims.rows, r.key = k → fresh ≤ r.id → now < r.expiresAt := by
  have hall : (s.store.claims.rows.all fun r =>
      r.key ≠ k ∨ r.id < fresh ∨ inWindow fresh now r) = true := by
    cases p with
    | looked req found =>
      cases found with
      | none | some r => exact hg
    | idle | asked req => exact hg
  intro r hr hk hid
  have hrow := List.all_eq_true.mp hall r hr
  rw [decide_eq_true_eq] at hrow
  rcases hrow with hne | hlt | hin
  · exact absurd hk hne
  · omega
  · unfold inWindow at hin
    rw [if_neg (by omega), decide_eq_true_eq] at hin
    rw [h.expiry r hr hid]
    exact hin

theorem step_once {nextCopyName : String → String} {p' : Pc} {a : Act} (h : Once k fresh s)
    (hsaw : Saw k fresh s p) (hg : WithinRetention k fresh s p a)
    (hstep : step nextCopyName a s p = some (s', p')) :
    Once k fresh s' ∧ Saw k fresh s' p' ∧ Later s s' := by
  cases p with
  | idle =>
    cases a with
    | request req =>
      cases hstep
      exact ⟨h, trivial, .of_same (refl _) rfl⟩
    | elsewhere db =>
      cases hstep
      refine ⟨h.elsewhere db, trivial, .of_rows (refl _) rfl ?_⟩
      intro r' hr'
      obtain ⟨r, hr, rfl⟩ := SerialTable.mem_updateRows.mp hr'
      refine ⟨r, hr, ?_⟩
      split_ifs
      all_goals exact ⟨rfl, rfl⟩
    | cleanup now =>
      cases hstep
      refine ⟨h.cleanup (cleanup_window h hg), trivial, .of_rows (refl _) rfl ?_⟩
      intro r' hr'
      exact ⟨r', (Table.mem_deleteWhere.mp hr').1, rfl, rfl⟩
    | _ => simp [step] at hstep
  | asked req =>
    cases a with
    | lookup =>
      cases hstep
      exact ⟨h, h.saw_lookup req, .of_same (refl _) rfl⟩
    | fail e =>
      cases hstep
      exact ⟨h.answerError req e, trivial, .of_same (refl _) rfl⟩
    | _ => simp [step] at hstep
  | looked req found =>
    cases a with
    | finish now claimNow resolved outcome =>
      have hwindow : ∀ r, found = some r → r.key = k → inWindow fresh now r = true := by
        rintro r rfl hk
        have hg' : decide (r.key ≠ k ∨ inWindow fresh now r = true) = true := hg
        rw [decide_eq_true_eq] at hg'
        exact hg'.resolve_left (not_not.mpr hk)
      exact h.settle hsaw hwindow (some.inj hstep)
    | fail e =>
      cases hstep
      exact ⟨h.answerError req e, trivial, .of_same (refl _) rfl⟩
    | _ => simp [step] at hstep

theorem reach_once {nextCopyName : String → String} {c : Config State Pc}
    (hrun : Interleave.Reach (system nextCopyName) (WithinRetention k store.claims.next) (start store)
      c) : Holds (Once k store.claims.next) (Saw k store.claims.next) (fun _ _ => True) c := by
  refine hrun.owicki ?_ ?_ ?_
  · intro s s' p p' a hI hA hG hstep
    obtain ⟨hI', hA', _⟩ := step_once hI hA hG hstep
    exact ⟨hI', hA'⟩
  · intro s s' p p' q a hI hA hq _ _ hG hstep
    obtain ⟨_, _, hl⟩ := step_once hI hA hG hstep
    exact ⟨hq.later hl, trivial, trivial⟩
  · refine ⟨⟨le_refl _, ?_, ?_, ?_, Nat.zero_le 1, ?_⟩, fun _ => trivial, fun _ _ _ => trivial⟩
    · intro r hr hid
      have hlt := store.claims.below r hr
      exact absurd hid (not_le.mpr hlt)
    · intro r hr _ hid
      have hlt := store.claims.below r hr
      exact absurd hid (not_le.mpr hlt)
    all_goals
      intro p hp
      exact absurd hp not_mem_nil

theorem Once.creator_eq (h : Once k fresh s) {p q : Request × ℕ} (hp : p ∈ s.created)
    (hq : q ∈ s.created) (hpk : p.1.key = some k) (hqk : q.1.key = some k) : p = q := by
  have hp' : p ∈ createdUnder k s.created := mem_filter.mpr ⟨hp, decide_eq_true hpk⟩
  have hq' : q ∈ createdUnder k s.created := mem_filter.mpr ⟨hq, decide_eq_true hqk⟩
  have hone := h.single
  rcases hlist : createdUnder k s.created with _ | ⟨x, l⟩
  · rw [hlist] at hp'
    exact absurd hp' not_mem_nil
  · rw [hlist] at hp' hq' hone
    obtain rfl : l = [] := length_eq_zero_iff.mp (by rw [length_cons] at hone; omega)
    rw [mem_singleton.mp hp', mem_singleton.mp hq']

/-- **Empty files are created once.** For every key (an actor, a workspace and a key hash) and every
interleaving within one retention window: at most one file is created under the key, every
successful answer to a request with the key names that file, and a request whose fingerprint is not
that of the creator neither creates a file nor gets one. -/
theorem created_once_per_key {nextCopyName : String → String} {store : Store} (k : Key) {c : Config State Pc}
    (hrun : Interleave.Reach (system nextCopyName) (WithinRetention k store.claims.next) (start store) c) :
    (c.shared.created.filter fun p => p.1.key = some k).length ≤ 1 ∧
    (∀ req res, (req, .ok res) ∈ c.shared.answers → req.key = some k →
      ∃ creator, (creator, res.file.id) ∈ c.shared.created ∧ creator.key = some k) ∧
    ∀ creator n, (creator, n) ∈ c.shared.created → creator.key = some k →
      ∀ req : Request, req.key = some k → req.fingerprint ≠ creator.fingerprint →
        (∀ m, (req, m) ∉ c.shared.created) ∧ ∀ res, (req, .ok res) ∉ c.shared.answers := by
  have hI := (reach_once hrun).shared
  have hanswer : ∀ req res, (req, .ok res) ∈ c.shared.answers → req.key = some k →
      ∃ creator, (creator, res.file.id) ∈ c.shared.created ∧ creator.key = some k ∧
        creator.fingerprint = req.fingerprint := by
    intro req res hans hkey
    obtain ⟨⟨creator, n⟩, hq, hfp, hn⟩ := hI.answered _ hans hkey res rfl
    obtain ⟨hmem, hqkey⟩ := mem_filter.mp hq
    obtain rfl : n = res.file.id := hn
    exact ⟨creator, hmem, of_decide_eq_true hqkey, hfp⟩
  refine ⟨hI.single, ?_, ?_⟩
  · intro req res hans hkey
    obtain ⟨creator, hmem, hck, _⟩ := hanswer req res hans hkey
    exact ⟨creator, hmem, hck⟩
  · intro creator n hmem hck req hkey hne
    constructor
    · intro m hm
      obtain ⟨rfl, _⟩ := Prod.mk.inj (hI.creator_eq hmem hm hck hkey)
      exact hne rfl
    · intro res hans
      obtain ⟨creator', hmem', hck', hfp⟩ := hanswer req res hans hkey
      obtain ⟨rfl, _⟩ := Prod.mk.inj (hI.creator_eq hmem hmem' hck hck')
      exact hne hfp.symm

end

/-! ### Sample requests -/

def sampleRequest (scope : WorkspaceStorageScope) (fingerprint : String) : Request :=
  { scope, filename := "a.txt", nameMode := .resolveUnique, idempotency := some ("k", fingerprint) }

def sampleResolved : Except AsterError Resolved :=
  .ok { folderId := none, policyId := 1, mime := "text/plain", now := 1, etag := "etag" }

def sampleStore : Store := { db := emptyDb, claims := .empty }

def sampleSystem : System State Pc Act := system sampleEnv.nextCopyName

/-- A request from its lookup to the end of its transaction, at the time `1`. -/
def served (i : ℕ) (req : Request) (outcome : Outcome) : List (ℕ × Act) :=
  [(i, .request req), (i, .lookup), (i, .finish 1 1 sampleResolved outcome)]

def sampleKey : Key := ⟨idempotencyScope (.personal 1), "k"⟩

/-- The first commit is uncertain and the request is sent again; another fingerprint comes last. -/
def retried : List (ℕ × Act) :=
  served 0 (sampleRequest (.personal 1) "f") (.commitUncertain (databaseError "connection lost")) ++
    served 0 (sampleRequest (.personal 1) "f") .commit ++
    served 1 (sampleRequest (.personal 1) "g") .commit

theorem retried_runs : (sampleSystem.run (WithinRetention sampleKey 1) (start sampleStore) retried).isSome := by
  rfl

def afterRetry : Config State Pc :=
  (sampleSystem.run (WithinRetention sampleKey 1) (start sampleStore) retried).get retried_runs

/-- One file, an uncertain answer, its replay and a refusal. -/
theorem created_once_retried : afterRetry.shared.created = [(sampleRequest (.personal 1) "f", 1)] ∧
      afterRetry.shared.answers.map (fun p => p.2.toOption.map fun res => (res.file.id, res.replayed)) =
        [none, some (1, true), none] ∧
      (∀ req res, (req, .ok res) ∈ afterRetry.shared.answers → req.key = some sampleKey →
        ∃ creator, (creator, res.file.id) ∈ afterRetry.shared.created ∧ creator.key = some sampleKey) ∧
      ∀ m, (sampleRequest (.personal 1) "g", m) ∉ afterRetry.shared.created := by
  have hreach : Interleave.Reach sampleSystem (WithinRetention sampleKey sampleStore.claims.next)
      (start sampleStore) afterRetry := reach_run_get retried_runs
  obtain ⟨_, hanswers, hother⟩ := created_once_per_key sampleKey hreach
  have hcreated : (sampleRequest (.personal 1) "f", 1) ∈ afterRetry.shared.created := mem_singleton_self _
  refine ⟨rfl, rfl, hanswers, ?_⟩
  exact (hother _ 1 hcreated rfl (sampleRequest (.personal 1) "g") rfl (by decide)).1

/-- Two members of a team use the same key hash for the same request. -/
def twoActors : List (ℕ × Act) :=
  served 0 (sampleRequest (.team 7 1) "f") .commit ++ served 1 (sampleRequest (.team 7 2) "f") .commit

/-- The other fingerprint comes first. -/
def driftFirst : List (ℕ × Act) :=
  served 1 (sampleRequest (.personal 1) "g") .commit ++ served 0 (sampleRequest (.personal 1) "f") .commit

theorem twoActors_runs : (sampleSystem.run free (start sampleStore) twoActors).isSome := by
  rfl

theorem driftFirst_runs : (sampleSystem.run free (start sampleStore) driftFirst).isSome := by
  rfl

/-- The key belongs to an actor, and the first fingerprint under it is the one that counts. -/
theorem same_key_creates_again : (¬ ∀ (c : Config State Pc) (keyHash fingerprint : String),
      Interleave.Reach sampleSystem free (start sampleStore) c →
        (c.shared.created.filter fun p => p.1.idempotency = some (keyHash, fingerprint)).length ≤ 1) ∧
    ¬ ∀ (c : Config State Pc) (keyHash fingerprint : String) (req : Request),
      Interleave.Reach sampleSystem free (start sampleStore) c → (∃ r ∈ c.shared.answers, r.1.key = req.key ∧
          r.1.idempotency = some (keyHash, fingerprint)) →
        req.idempotency.map Prod.fst = some keyHash → req.fingerprint ≠ some fingerprint →
          ∀ n, (req, n) ∉ c.shared.created := by
  constructor
  · intro hclaim
    have hone := hclaim _ "k" "f" (reach_run_get twoActors_runs)
    exact absurd hone (by decide)
  · intro hclaim
    have hnone := hclaim _ "k" "f" (sampleRequest (.personal 1) "g") (reach_run_get driftFirst_runs)
      ⟨_, mem_cons_self, rfl, rfl⟩ rfl (by decide) 1
    exact hnone (mem_singleton_self _)

end AsterDrive.Db.IdempotentCreate
