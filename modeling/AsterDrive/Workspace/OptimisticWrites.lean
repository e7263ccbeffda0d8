import AsterDrive.Lib.Interleave
import AsterDrive.Workspace.Runs

/-!
# OptimisticWrites — overwriting writers that expect the head they read

A writer reads the row of a file and the head of its history, in any order and at any time, and later
runs the overwriting transaction of `persist_temp_store` with that head as its expectation: the
revision's id (`append`) or its etag (`append_for_expected_etag`). The transaction does everything
else first, so a stale writer may already be refused by the quota or by the row; what reaches the
head check and is stale gets `HeadChanged` or `EtagMismatch`.

`log` is a ghost: for every committed overwrite the revision its writer read and the id of the new
revision.
-/

namespace AsterDrive.Db.OptimisticWrites

open Interleave

/-- What a writer passes to the transaction besides what it read. -/
structure Write where
  scope : WorkspaceStorageScope
  blob : TempBlob
  precondition : Option FileWritePrecondition := none
  byEtag : Bool
  mime : String
  now : ℕ
  etag : String

structure State where
  db : Db
  log : List (FileRevision × ℕ) := []

inductive Pc
  | idle
  | reading (fileId : ℕ) (file : Option File) (head : Option FileRevision)
  | done (head : FileRevision) (result : Except AsterError File)
  deriving DecidableEq

inductive Act
  | openFile (fileId : ℕ)
  | load
  | readHead
  | commit (w : Write)

/-- The expectation that the writer submits. -/
def expectedHead (byEtag : Bool) (head : FileRevision) : ExpectedHead :=
  if byEtag then { etag := some head.etag } else { revisionId := some head.id }

/-- The head of the file's history. -/
def headOf (s : Db) (fileId : ℕ) : Option FileRevision :=
  (findHistoryByFileId s fileId).bind fun h => h.currentRevisionId.bind fun k => s.revisions.get k

variable (nextCopyName : String → String)

/-- The overwriting transaction of `persist_temp_store`. -/
def overwrite (file : File) (head : FileRevision) (w : Write) : Txn File :=
  storeFromTemp nextCopyName w.scope w.blob
    (.overwrite file w.precondition (expectedHead w.byEtag head)) w.mime w.now w.etag

def step (a : Act) (s : State) (p : Pc) : Option (State × Pc) :=
  match p, a with
  | .idle, .openFile fileId => some (s, .reading fileId none none)
  | .reading fileId _ head, .load => some (s, .reading fileId (s.db.files.get fileId) head)
  | .reading fileId file _, .readHead => some (s, .reading fileId file (headOf s.db fileId))
  | .reading _ (some file) (some head), .commit w =>
    match overwrite nextCopyName file head w s.db with
    | .ok (f, db) => some (⟨db, (head, s.db.revisions.next) :: s.log⟩, .done head (.ok f))
    | .error e => some (s, .done head (.error e))
  | _, _ => none

def system : System State Pc Act := ⟨step nextCopyName⟩

def start (db : Db) : Config State Pc := { shared := { db }, proc := fun _ => .idle }

/-! ### The transaction up to the head check -/

/-- Everything that comes before the head check. -/
def stageOverwrite (file : File) (w : Write) : Txn (FileBlob × File × Option ℕ) := do
  checkQuotaIfPositive w.scope w.blob.size
  let row ← persistTempBlob w.blob
  let current ← revalidateOverwriteTarget w.scope file w.precondition
  let locked ← lockHistoryByFileId current.id
  let updated ← updateFileContent current row.id row.size w.mime w.now
  pure (row, updated, locked.currentRevisionId)

/-- The head check, the new revision and the charge. -/
def finishOverwrite (head : FileRevision) (w : Write) (x : FileBlob × File × Option ℕ) : Txn File := do
  let _ ← appendExpecting x.2.1.id x.2.2 (expectedHead w.byEtag head)
    { blobId := x.1.id, logicalSize := x.1.size, mimeType := w.mime, etag := w.etag }
  chargeIfNonzero w.scope w.blob.size
  pure x.2.1

section

variable {nextCopyName} {s s' : Db} {file : File} {head r : FileRevision} {w : Write} {e : AsterError} {fileId : ℕ}

/-- `updateFileContent` keeps the id, so the check is made on the history that was locked. -/
theorem overwrite_eq : overwrite nextCopyName file head w s = (stageOverwrite file w >>= finishOverwrite head w) s := by
  have hsplit : overwrite nextCopyName file head w = (do
      checkQuotaIfPositive w.scope w.blob.size
      let row ← persistTempBlob w.blob
      let current ← revalidateOverwriteTarget w.scope file w.precondition
      let locked ← lockHistoryByFileId current.id
      let updated ← updateFileContent current row.id row.size w.mime w.now
      let _ ← appendExpecting current.id locked.currentRevisionId (expectedHead w.byEtag head)
        { blobId := row.id, logicalSize := row.size, mimeType := w.mime, etag := w.etag }
      chargeIfNonzero w.scope w.blob.size
      pure updated) := by
    unfold overwrite storeFromTemp writeFileRecordFromTemp writeTarget overwriteContent
    simp only [bind_assoc, pure_bind]
  rw [hsplit]
  unfold stageOverwrite finishOverwrite
  simp only [bind_assoc, pure_bind]
  rfl

theorem bind_txn_error {α β : Type} {x : Txn α} {f : α → Txn β} :
    (x >>= f) s = .error e ↔ x s = .error e ∨ ∃ a s1, x s = .ok (a, s1) ∧ f a s1 = .error e := by
  show (x s >>= fun p => f p.1 p.2) = _ ↔ _
  rcases hx : x s with e' | ⟨a, s1⟩
  all_goals simp [bind, Except.bind]

theorem persistTempBlob_ledger {blob : TempBlob} {row : FileBlob} (hok : persistTempBlob blob s = .ok (row, s')) :
    s'.histories = s.histories ∧ s'.revisions = s.revisions := by
  cases blob with
  | contentAddressed fileHash storagePath size policyId | preuploaded prepared =>
    simp only [persistTempBlob] at hok
    obtain ⟨blobs, _, rfl⟩ := onBlobs_ok hok
    exact ⟨rfl, rfl⟩

theorem revalidate_id {scope : WorkspaceStorageScope} {current : File} {precondition : Option FileWritePrecondition}
    (hok : revalidateOverwriteTarget scope file precondition s = .ok (current, s')) :
    s' = s ∧ current.id = file.id := by
  refine ⟨(revalidateOverwriteTarget_ok hok).1, ?_⟩
  obtain ⟨x, s₁, henf, hok₁⟩ := bind_txn hok
  obtain ⟨_, _, hid, _⟩ := enforceFileMutation_ok henf
  obtain ⟨_, s₂, _, hok₂⟩ := bind_txn hok₁
  obtain ⟨_, s₃, _, hok₃⟩ := bind_txn hok₂
  cases hok₃
  exact hid

theorem stageOverwrite_ok {x : FileBlob × File × Option ℕ} (hok : stageOverwrite file w s = .ok (x, s')) :
    s'.histories = s.histories ∧ s'.revisions = s.revisions ∧ x.2.1.id = file.id := by
  obtain ⟨_, s₁, hquota, hok₁⟩ := bind_txn hok
  obtain rfl := checkQuotaIfPositive_ok hquota
  obtain ⟨row, s₂, hblob, hok₂⟩ := bind_txn hok₁
  obtain ⟨hhist, hrev⟩ := persistTempBlob_ledger hblob
  obtain ⟨current, s₃, hcur, hok₃⟩ := bind_txn hok₂
  obtain ⟨rfl, hid⟩ := revalidate_id hcur
  obtain ⟨locked, s₄, hlock, hok₄⟩ := bind_txn hok₃
  obtain ⟨rfl, _, _⟩ := lockHistory_ok hlock
  obtain ⟨updated, s₅, hupd, hok₅⟩ := bind_txn hok₄
  cases hok₅
  cases hupd
  exact ⟨hhist, hrev, hid⟩

/-! ### The head check -/

/-- The expectation is met by the head `r`. -/
def Meets (byEtag : Bool) (head r : FileRevision) : Prop :=
  if byEtag then head.etag.toLower = r.etag.toLower else r.id = head.id

instance (byEtag : Bool) (head r : FileRevision) : Decidable (Meets byEtag head r) :=
  inferInstanceAs (Decidable (ite _ _ _))

def staleError (byEtag : Bool) : AsterError := if byEtag then etagMismatch else headChanged

theorem headOf_eq_some (h : headOf s fileId = some r) :
    ∃ hist, findHistoryByFileId s fileId = some hist ∧ hist.currentRevisionId = some r.id ∧
      s.revisions.get r.id = some r := by
  obtain ⟨hist, hhist, hcur⟩ := Option.bind_eq_some_iff.mp h
  obtain ⟨k, hk, hr⟩ := Option.bind_eq_some_iff.mp hcur
  have hid : r.id = k := Table.key_of_get hr
  exact ⟨hist, hhist, hid ▸ hk, hid ▸ hr⟩

variable {hist : FileRevisionHistory}

theorem lockHistory_eq (h : findHistoryByFileId s fileId = some hist) :
    lockHistoryByFileId fileId s = .ok (hist, s) := by
  show (orFail (findHistoryByFileId s fileId) _) s = _
  rw [h]
  rfl

variable {input : NewRevision}

theorem appendExpecting_eq {locked : Option ℕ} (byEtag : Bool) (hhist : findHistoryByFileId s fileId = some hist)
    (hcur : hist.currentRevisionId = some r.id) (hr : s.revisions.get r.id = some r) :
    appendExpecting fileId locked (expectedHead byEtag head) input s =
      if Meets byEtag head r then appendLocked hist input s else .error (staleError byEtag) := by
  cases byEtag with
  | false =>
    show append fileId (some head.id) input s = _
    have hrun : append fileId (some head.id) input s =
        (ensure (some head.id = none ∨ hist.currentRevisionId = some head.id) headChanged >>=
          fun _ => appendLocked hist input) s := by
      show (lockHistoryByFileId fileId s >>= _) = _
      rw [lockHistory_eq hhist]
      rfl
    rw [hrun, hcur]
    by_cases hid : r.id = head.id
    · have hmeets : Meets false head r := hid
      rw [if_pos hmeets, hid]
      show (ensure _ _ s >>= _) = _
      unfold ensure
      rw [if_pos (.inr rfl)]
      rfl
    · have hmeets : ¬ Meets false head r := hid
      rw [if_neg hmeets]
      show (ensure _ _ s >>= _) = _
      unfold ensure
      rw [if_neg (by simp [hid])]
      rfl
  | true =>
    show appendForExpectedEtag fileId (some head.etag) input s = _
    have hrun : appendForExpectedEtag fileId (some head.etag) input s =
        (ensure (head.etag.toLower = r.etag.toLower) etagMismatch >>= fun _ => appendLocked hist input) s := by
      show (lockHistoryByFileId fileId s >>= _) = _
      rw [lockHistory_eq hhist]
      show ((ensureEtag fileId hist (some head.etag) >>= fun _ => appendLocked hist input) s) = _
      unfold ensureEtag
      rw [hcur]
      show (orFail (s.revisions.get r.id) _ s >>= _) >>= _ = _
      rw [hr]
      rfl
    rw [hrun]
    by_cases hetag : head.etag.toLower = r.etag.toLower
    · have hmeets : Meets true head r := hetag
      rw [if_pos hmeets]
      show (ensure _ _ s >>= _) = _
      unfold ensure
      rw [if_pos hetag]
      rfl
    · have hmeets : ¬ Meets true head r := hetag
      rw [if_neg hmeets]
      show (ensure _ _ s >>= _) = _
      unfold ensure
      rw [if_neg hetag]
      rfl

theorem updateStorageUsedOn_ledger {scope : WorkspaceStorageScope} {delta : ℤ} {u : Unit}
    (hok : updateStorageUsedOn scope delta s = .ok (u, s')) :
    s'.histories = s.histories ∧ s'.revisions = s.revisions := by
  unfold updateStorageUsedOn updateStorageUsedFor at hok
  rcases hupd : updateStorageUsed s.usage scope.resource delta with e | ⟨t, floored⟩
  · simp [hupd] at hok
  · rw [hupd] at hok
    cases hok
    exact ⟨rfl, rfl⟩

theorem staged_append {x : FileBlob × File × Option ℕ} {s1 : Db}
    (hstage : stageOverwrite file w s = .ok (x, s1)) (hr : headOf s file.id = some r) :
    ∃ hist, findHistoryByFileId s file.id = some hist ∧ hist.currentRevisionId = some r.id ∧
      appendExpecting x.2.1.id x.2.2 (expectedHead w.byEtag head) input s1 =
        if Meets w.byEtag head r then appendLocked hist input s1
        else .error (staleError w.byEtag) := by
  obtain ⟨hhist, hrev, hid⟩ := stageOverwrite_ok hstage
  obtain ⟨hist, hfind, hcur, hget⟩ := headOf_eq_some hr
  have hfind1 : findHistoryByFileId s1 x.2.1.id = some hist := by
    unfold findHistoryByFileId
    rw [hhist, hid]
    exact hfind
  have hget1 : s1.revisions.get r.id = some r := by
    rw [hrev]
    exact hget
  exact ⟨hist, hfind, hcur, appendExpecting_eq w.byEtag hfind1 hcur hget1⟩

/-- The ledger after an overwrite. -/
structure Overwritten (s s' : Db) (fileId : ℕ) (head : FileRevision) (etag : String) : Prop where
  current : headOf s fileId = some head
  ledger : ∃ hist input, findHistoryByFileId s fileId = some hist ∧
    hist.currentRevisionId = some head.id ∧ input.etag = etag ∧
    s'.revisions = (appended s hist input).revisions ∧
    s'.histories = (appended s hist input).histories

/-- A current head was met, or the transaction failed with nothing but the error to show. -/
theorem overwrite_ok {f : File} (hr : headOf s file.id = some r) (hmeets : Meets w.byEtag head r → r = head)
    (hok : overwrite nextCopyName file head w s = .ok (f, s')) :
    Overwritten s s' file.id head w.etag := by
  rw [overwrite_eq] at hok
  obtain ⟨x, s₁, hstage, hfin⟩ := bind_txn hok
  obtain ⟨hhist, hrev, _⟩ := stageOverwrite_ok hstage
  obtain ⟨r', s₂, happ, hfin₁⟩ := bind_txn hfin
  obtain ⟨_, s₃, hcharge, hfin₂⟩ := bind_txn hfin₁
  obtain ⟨_, rfl⟩ := pure_txn_ok.mp hfin₂
  obtain ⟨hist, hfind, hcur, hcheck⟩ := staged_append hstage hr
  rw [hcheck] at happ
  split_ifs at happ with hm
  obtain rfl := hmeets hm
  have happ' := appendLocked_ok happ
  have hcharged : s₃.histories = s₂.histories ∧ s₃.revisions = s₂.revisions := by
    unfold chargeIfNonzero at hcharge
    split_ifs at hcharge
    · exact updateStorageUsedOn_ledger hcharge
    · obtain ⟨_, rfl⟩ := pure_txn_ok.mp hcharge
      exact ⟨rfl, rfl⟩
  refine ⟨hr, hist, { blobId := x.1.id, logicalSize := x.1.size, mimeType := w.mime, etag := w.etag },
    hfind, hcur, rfl, ?_, ?_⟩
  · rw [hcharged.2, happ']
    unfold appended
    rw [hrev]
  · rw [hcharged.1, happ']
    unfold appended
    rw [hhist, hrev]

/-- The error of a writer whose head is not current: that of the statements before the head check, if
they fail, and otherwise that of the head check. -/
theorem overwrite_stale (hr : headOf s file.id = some r) (hstale : ¬ Meets w.byEtag head r) :
    overwrite nextCopyName file head w s =
      match stageOverwrite file w s with
      | .ok _ => .error (staleError w.byEtag)
      | .error e => .error e := by
  rw [overwrite_eq]
  rcases hstage : stageOverwrite file w s with e | ⟨x, s1⟩
  · exact bind_txn_error.mpr (.inl hstage)
  · refine bind_txn_error.mpr (.inr ⟨x, s1, hstage, ?_⟩)
    obtain ⟨hist, _, _, hcheck⟩ := staged_append hstage hr
    refine bind_txn_error.mpr (.inl ?_)
    rw [hcheck, if_neg hstale]

/-! ### Every interleaving -/

/-- No two revisions have the same etag, up to the case of ASCII letters. -/
def UniqueEtags (s : Db) : Prop :=
  ∀ x ∈ s.revisions.rows, ∀ y ∈ s.revisions.rows, x.etag.toLower = y.etag.toLower → x = y

instance (s : Db) : Decidable (UniqueEtags s) := inferInstanceAs (Decidable (∀ x ∈ _, ∀ y ∈ _, _ → _))

/-- A commit brings an etag that no revision has yet. -/
def freshEtag (s : State) : Act → Bool
  | .commit w => s.db.revisions.rows.all fun x => x.etag.toLower ≠ w.etag.toLower
  | _ => true

def Fresh (s : State) (_ : Pc) (a : Act) : Prop := freshEtag s a = true

instance (s : State) (p : Pc) (a : Act) : Decidable (Fresh s p a) := inferInstanceAs (Decidable (_ = true))

/-- Every committed overwrite continues the revision that its writer read. -/
structure InOrder (s : State) : Prop where
  etags : UniqueEtags s.db
  logged : ∀ p ∈ s.log, ∃ x, s.db.revisions.get p.2 = some x ∧ x.predecessorRevisionId = some p.1.id

/-- What a writer knows: the row and the head are those of its file, and the head it read is still a
revision of the ledger, current or not. -/
def Reader (s : State) : Pc → Prop
  | .reading fileId file head =>
    (∀ f, file = some f → f.id = fileId) ∧
      ∀ h, head = some h → h ∈ s.db.revisions.rows ∧ ∃ r, headOf s.db fileId = some r
  | _ => True

theorem mem_of_headOf (h : headOf s fileId = some r) : r ∈ s.revisions.rows := by
  obtain ⟨_, _, _, hget⟩ := headOf_eq_some h
  exact Table.mem_of_get hget

theorem eq_of_meets (hu : UniqueEtags s) (hhead : head ∈ s.revisions.rows)
    (hr : r ∈ s.revisions.rows) {byEtag : Bool} (h : Meets byEtag head r) : r = head := by
  cases byEtag with
  | false => exact Table.eq_of_key hr hhead h
  | true => exact (hu head hhead r hr h).symm

theorem get_appended (k : ℕ) : (appended s hist input).revisions.get k =
      if s.revisions.next = k then some (nextRevision hist input s.revisions.next)
      else s.revisions.get k :=
  SerialTable.get_insert s.revisions (fun _ => rfl) k

theorem mem_appended {x : FileRevision} : x ∈ (appended s hist input).revisions.rows ↔
      x ∈ s.revisions.rows ∨ x = nextRevision hist input s.revisions.next := by
  simp [Db.appended, SerialTable.insert]

theorem UniqueEtags.appended (hu : UniqueEtags s) (hfresh : ∀ x ∈ s.revisions.rows, x.etag.toLower ≠ input.etag.toLower)
    (hs' : s'.revisions = (appended s hist input).revisions) : UniqueEtags s' := by
  intro x hx y hy hxy
  rw [hs', mem_appended] at hx hy
  rcases hx with hx | rfl <;> rcases hy with hy | rfl
  · exact hu x hx y hy hxy
  · exact absurd hxy (hfresh x hx)
  · exact absurd hxy.symm (hfresh y hy)
  · rfl

variable {etag : String}

/-- A file with a head keeps having one: an overwrite only moves heads to new revisions. -/
theorem Overwritten.headOf (h : Overwritten s s' fileId head etag) {k : ℕ}
    (hr : OptimisticWrites.headOf s k = some r) : ∃ r', OptimisticWrites.headOf s' k = some r' := by
  obtain ⟨_, hist, input, _, _, _, hrev, hhist⟩ := h
  obtain ⟨hk, hfind, hcur, hget⟩ := headOf_eq_some hr
  have hnext : s.revisions.next ≠ r.id := by
    have hlt := SerialTable.lt_next_of_get hget
    omega
  -- the update rewrites rows in place, so the row found for `k` is at the same position
  have hfind' : findHistoryByFileId s' k = some (if hk.id = hist.id then
      withHead s.revisions.next (hist.nextSequence + 1) hk else hk) := by
    unfold findHistoryByFileId at hfind ⊢
    rw [hhist]
    show List.find? _ (s.histories.rows.map _) = _
    have hcomp : ((fun x : FileRevisionHistory => decide (x.fileId = some k)) ∘ fun x =>
        if decide (x.id = hist.id) = true then
          withHead s.revisions.next (hist.nextSequence + 1) x else x) =
        fun x => decide (x.fileId = some k) := by
      funext x
      simp only [Function.comp_apply]
      split_ifs <;> rfl
    rw [List.find?_map, hcomp, hfind]
    simp
  unfold OptimisticWrites.headOf
  rw [hfind', Option.bind_some, hrev]
  by_cases hid : hk.id = hist.id
  · refine ⟨nextRevision hist input s.revisions.next, ?_⟩
    rw [if_pos hid]
    show (appended s hist input).revisions.get s.revisions.next = _
    rw [get_appended, if_pos rfl]
  · refine ⟨r, ?_⟩
    rw [if_neg hid, hcur, Option.bind_some, get_appended, if_neg hnext, hget]

/-- A committed overwrite keeps the order: the new revision continues the head that was read. -/
theorem Overwritten.inOrder {log : List (FileRevision × ℕ)}
    (h : Overwritten s s' fileId head etag) (hI : InOrder ⟨s, log⟩)
    (hfresh : ∀ x ∈ s.revisions.rows, x.etag.toLower ≠ etag.toLower) :
    InOrder ⟨s', (head, s.revisions.next) :: log⟩ := by
  obtain ⟨_, hist, input, _, hcur, hetag, hrev, _⟩ := h
  constructor
  · refine hI.etags.appended ?_ hrev
    rw [← hetag] at hfresh
    exact hfresh
  · intro p hp
    show ∃ x, s'.revisions.get p.2 = some x ∧ _
    rw [hrev, get_appended]
    rcases List.mem_cons.mp hp with rfl | hp
    · exact ⟨nextRevision hist input s.revisions.next, if_pos rfl, hcur⟩
    · obtain ⟨x, hx, hpred⟩ := hI.logged p hp
      have hlt := SerialTable.lt_next_of_get hx
      have hne : s.revisions.next ≠ p.2 := by
        intro heq
        rw [heq] at hlt
        exact lt_irrefl _ hlt
      exact ⟨x, by rw [if_neg hne]; exact hx, hpred⟩

theorem Overwritten.reader {log log' : List (FileRevision × ℕ)} {p : Pc}
    (h : Overwritten s s' fileId head etag) (hA : Reader ⟨s, log⟩ p) : Reader ⟨s', log'⟩ p := by
  cases p with
  | reading k file head' =>
    refine ⟨hA.1, ?_⟩
    intro x hx
    obtain ⟨hmem, r, hr⟩ := hA.2 x hx
    refine ⟨?_, h.headOf hr⟩
    obtain ⟨_, hist, input, _, _, _, hrev, _⟩ := h
    show x ∈ s'.revisions.rows
    rw [hrev]
    exact (mem_appended).mpr (.inl hmem)
  | idle | done head' result => trivial

end

section Runs

variable {nextCopyName} {s s' : State} {p p' : Pc} {a : Act}

/-- What one step does: it reads, it commits an overwrite of the head it read, or it fails and
changes nothing. -/
theorem step_cases (hI : InOrder s) (hA : Reader s p) (hstep : step nextCopyName a s p = some (s', p')) :
    (s' = s ∧ Reader s p') ∨ ∃ fileId head w f, a = .commit w ∧ Overwritten s.db s'.db fileId head w.etag ∧
      s'.log = (head, s.db.revisions.next) :: s.log ∧ p' = .done head (.ok f) := by
  cases p with
  | idle =>
    cases a with
    | openFile fileId =>
      left
      cases hstep
      exact ⟨rfl, by simp, by simp⟩
    | _ => simp [step] at hstep
  | done head result => simp [step] at hstep
  | reading fileId file head =>
    cases a with
    | openFile k => simp [step] at hstep
    | load =>
      left
      cases hstep
      refine ⟨rfl, ?_, hA.2⟩
      intro f hf
      exact Table.key_of_get hf
    | readHead =>
      left
      cases hstep
      exact ⟨rfl, hA.1, fun h hh => ⟨mem_of_headOf hh, h, hh⟩⟩
    | commit w =>
      rcases file with _ | file
      · simp [step] at hstep
      rcases head with _ | head
      · simp [step] at hstep
      obtain ⟨hmem, r, hr⟩ := hA.2 head rfl
      obtain rfl : file.id = fileId := hA.1 file rfl
      rcases hrun : overwrite nextCopyName file head w s.db with e | ⟨f, db⟩
      · left
        simp only [step, hrun] at hstep
        cases hstep
        exact ⟨rfl, trivial⟩
      · right
        simp only [step, hrun] at hstep
        cases hstep
        refine ⟨file.id, head, w, f, rfl, ?_, rfl, rfl⟩
        exact overwrite_ok hr (eq_of_meets hI.etags hmem (mem_of_headOf hr)) hrun

theorem fresh_of_commit {w : Write} (h : Fresh s p (.commit w)) :
    ∀ x ∈ s.db.revisions.rows, x.etag.toLower ≠ w.etag.toLower := by
  intro x hx
  have hall := List.all_eq_true.mp h x hx
  exact of_decide_eq_true hall

theorem step_inOrder (hI : InOrder s) (hA : Reader s p) (hG : Fresh s p a)
    (hstep : step nextCopyName a s p = some (s', p')) : InOrder s' ∧ Reader s' p' := by
  rcases step_cases hI hA hstep with ⟨rfl, hA'⟩ | ⟨fileId, head, w, f, rfl, hover, hlog, rfl⟩
  · exact ⟨hI, hA'⟩
  · obtain ⟨db', log'⟩ := s'
    obtain rfl : log' = _ := hlog
    exact ⟨hover.inOrder hI (fresh_of_commit hG), trivial⟩

theorem step_reader {q : Pc} (hI : InOrder s) (hA : Reader s p) (hq : Reader s q)
    (hstep : step nextCopyName a s p = some (s', p')) : Reader s' q := by
  rcases step_cases hI hA hstep with ⟨rfl, _⟩ | ⟨fileId, head, w, f, _, hover, _, _⟩
  · exact hq
  · exact hover.reader hq

theorem reach_inOrder {db : Db} {c : Config State Pc} (hu : UniqueEtags db)
    (hrun : Interleave.Reach (system nextCopyName) Fresh (start db) c) :
    Holds InOrder Reader (fun _ _ => True) c := by
  refine hrun.owicki ?_ ?_ ?_
  · intro s s' p p' a hI hA hG hstep
    exact step_inOrder hI hA hG hstep
  · intro s s' p p' q a hI hA hq _ _ hG hstep
    exact ⟨step_reader hI hA hq hstep, trivial, trivial⟩
  · exact ⟨⟨hu, by simp [start]⟩, fun _ => trivial, fun _ _ _ => trivial⟩

/-- **Optimistic overwrites lose no update.** However the writers interleave, every committed
overwrite continues exactly the revision that its writer read. A writer whose head is no longer
current fails and changes nothing, and its error is that of the head check, unless an earlier
statement of the transaction already refused it. -/
theorem overwrites_lose_no_update {db : Db} {c : Config State Pc} (hu : UniqueEtags db)
    (hrun : Interleave.Reach (system nextCopyName) Fresh (start db) c) :
    (∀ p ∈ c.shared.log, ∃ x, c.shared.db.revisions.get p.2 = some x ∧ x.predecessorRevisionId = some p.1.id) ∧
    ∀ i fileId file head w, c.proc i = .reading fileId (some file) (some head) → headOf c.shared.db fileId ≠ some head →
      (system nextCopyName).fire c i (.commit w) = some { c with proc := Function.update c.proc i (.done head (.error
          (match stageOverwrite file w c.shared.db with
          | .ok _ => if w.byEtag then etagMismatch else headChanged
          | .error e => e))) } := by
  obtain ⟨hI, hA, _⟩ := reach_inOrder hu hrun
  refine ⟨hI.logged, ?_⟩
  intro i fileId file head w hi hstale
  have hreader := hA i
  rw [hi] at hreader
  obtain ⟨hmem, r, hr⟩ := hreader.2 head rfl
  obtain rfl : file.id = fileId := hreader.1 file rfl
  have hmeets : ¬ Meets w.byEtag head r := by
    intro hm
    rw [hr, eq_of_meets hI.etags hmem (mem_of_headOf hr) hm] at hstale
    exact hstale rfl
  have hover : overwrite nextCopyName file head w c.shared.db = _ := overwrite_stale hr hmeets
  show ((step nextCopyName (.commit w) c.shared (c.proc i)).map _) = _
  rw [hi]
  rcases hstage : stageOverwrite file w c.shared.db with e | x
  all_goals
    rw [hstage] at hover
    simp only [step, hover]
    rfl

end Runs

/-! ### Two writers of one file

Both read the stored file and its head. The first overwrites; the second is stale. -/

def sampleWrite (etag : String) : Write :=
  { scope := .personal 1, blob := .preuploaded (.opaqueObject etag "s3" ("objects/" ++ etag) 1 1)
    byEtag := true, mime := "text/plain", now := 6, etag }

/-- Both writers read, and the first one commits. -/
def overtaken : List (ℕ × Act) :=
  [(0, .openFile 1), (1, .openFile 1), (0, .load), (1, .load), (0, .readHead), (1, .readHead),
    (0, .commit (sampleWrite "etag-2"))]

def sampleSystem : System State Pc Act := system sampleEnv.nextCopyName

theorem overtaken_runs : (sampleSystem.run Fresh (start storedDb) overtaken).isSome := by
  decide +kernel

theorem reloaded_runs : (sampleSystem.run Fresh (start storedDb) (overtaken ++ [(1, .load)])).isSome := by
  decide +kernel

/-- The second writer read row and head before the first committed. -/
def afterFirst : Config State Pc := (sampleSystem.run Fresh (start storedDb) overtaken).get overtaken_runs

/-- The second writer has read the row again, but not the head. -/
def afterReload : Config State Pc :=
  (sampleSystem.run Fresh (start storedDb) (overtaken ++ [(1, .load)])).get reloaded_runs

def firstRevision : FileRevision :=
  { id := 1, historyId := 1, sequence := 1, predecessorRevisionId := none, blobId := some 1
    logicalSize := 1, mimeType := some "text/plain", etag := "etag" }

/-- The row after the first overwrite. -/
def rewrittenFile : File := { storedFile with blobId := 2, updatedAt := 6 }

theorem second_commits : (sampleSystem.fire afterFirst 1 (.commit (sampleWrite "etag-3"))).isSome := by
  decide +kernel

/-- The second writer's row is stale too, and the row check comes first. -/
theorem stale_writer_refused_by_row :
    ¬ ∀ c c' : Config State Pc, Interleave.Reach sampleSystem Fresh (start storedDb) c →
      ∀ i fileId file head w, c.proc i = .reading fileId (some file) (some head) →
        headOf c.shared.db fileId ≠ some head →
        sampleSystem.fire c i (.commit w) = some c' →
        c'.proc i = .done head (.error headChanged) ∨ c'.proc i = .done head (.error etagMismatch) := by
  intro hclaim
  have hdone : ((sampleSystem.fire afterFirst 1 (.commit (sampleWrite "etag-3"))).get
      second_commits).proc 1 = .done firstRevision (.error (fileModifiedDuringWrite
        "file changed while upload body was being received")) := by
    decide +kernel
  have hreads : afterFirst.proc 1 = .reading 1 (some storedFile) (some firstRevision) := by
    decide +kernel
  have hstale : headOf afterFirst.shared.db 1 ≠ some firstRevision := by decide +kernel
  have hresult := hclaim afterFirst _ (reach_run_get overtaken_runs) 1 1 storedFile firstRevision
    (sampleWrite "etag-3") hreads hstale (Option.some_get second_commits).symm
  exact absurd hresult (by decide +kernel)

/-- The second writer's row is fresh, and the head check refuses it. -/
theorem overwrites_lose_no_update_twice : afterReload.shared.log = [(firstRevision, 2)] ∧
      (∀ p ∈ afterReload.shared.log, ∃ x, afterReload.shared.db.revisions.get p.2 = some x ∧
        x.predecessorRevisionId = some p.1.id) ∧
      sampleSystem.fire afterReload 1 (.commit (sampleWrite "etag-3")) = some { afterReload with
          proc := Function.update afterReload.proc 1 (.done firstRevision (.error etagMismatch)) } := by
  have hreads : afterReload.proc 1 = .reading 1 (some rewrittenFile) (some firstRevision) := by
    decide +kernel
  have hstale : headOf afterReload.shared.db 1 ≠ some firstRevision := by decide +kernel
  have hstaged : (stageOverwrite rewrittenFile (sampleWrite "etag-3") afterReload.shared.db).isOk = true := by
    decide +kernel
  have hreach : Interleave.Reach sampleSystem Fresh (start storedDb) afterReload := reach_run_get reloaded_runs
  obtain ⟨hlog, hfire⟩ := overwrites_lose_no_update (by decide +kernel) hreach
  refine ⟨by decide +kernel, hlog, ?_⟩
  have hlost := hfire 1 1 rewrittenFile firstRevision (sampleWrite "etag-3") hreads hstale
  refine hlost.trans ?_
  rcases hres : stageOverwrite rewrittenFile (sampleWrite "etag-3") afterReload.shared.db with e | x
  · rw [hres] at hstaged
    exact Bool.noConfusion hstaged
  · rfl

end AsterDrive.Db.OptimisticWrites
