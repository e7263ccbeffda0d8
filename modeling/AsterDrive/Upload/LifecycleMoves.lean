import AsterDrive.Upload.Lifecycle

/-!
# LifecycleMoves — what a step of a worker can do

`step_turn` says what a step does to the session row, the content tables and the objects, and which
role the worker has afterwards: it works on the assembly, it ends one that failed, it returns a file,
it has loaded a row; and how a worker comes to the calls that delete something or act on what was read
earlier. No later proof opens a step function.
-/

namespace AsterDrive.Upload.Lifecycle

open Interleave Db List Option

variable {κ : Type} (cfg : Setup κ)

/-! ### The moves -/

/-- The pcs of an assembly that has not been published. -/
def Pc.works : Pc → Bool
  | .stage _ | .measure _ _ | .discard _ _ _ | .publish _ _ | .rollback _ _ _ | .cleanup _ _ _ => true
  | _ => false

/-- The pcs of an assembly that ended with an error and has yet to say so on the row. -/
def Pc.ends : Pc → Bool
  | .fail _ _ | .mark _ _ => true
  | _ => false

/-- The file that the worker returns. -/
def Pc.file : Pc → Option File
  | .clear _ f | .returned (.ok f) => some f
  | _ => none

/-- The row that a complete call has loaded and not yet acted upon. -/
def Pc.seen : Pc → Option UploadSession
  | .plan u | .lookup u => some u
  | _ => none

/-- The object that the worker is about to delete. -/
def Pc.target : Pc → Option String
  | .reject _ _ | .clear _ _ | .delete _ _ => cfg.row.objectTempKey
  | .discard _ path _ => some path
  | .cleanup _ v _ => some v.storagePath
  | _ => none

/-- A pc without a part in the assembly. -/
structure Plain (p : Pc) : Prop where
  works : p.works = false
  ends : p.ends = false
  file : p.file = none
  seen : p.seen = none

/-- The worker takes on no new role, or one that what it reads gives it. -/
structure Keeps (s : State) (p p' : Pc) : Prop where
  works : p'.works = true → p.works = true
  ends : p'.ends = true → p.works = true ∨ p.ends = true
  file : ∀ f, p'.file = some f → p.file = some f ∨ ∃ u, p = .lookup u ∧ findFileBySession s.db u = .ok f
  seen : ∀ u, p'.seen = some u → p.seen = some u ∨ s.session = some u

theorem Plain.keeps {s : State} {p p' : Pc} (h : Plain p') : Keeps s p p' := by
  refine ⟨?_, ?_, ?_, ?_⟩
  · simp [h.works]
  · simp [h.ends]
  · simp [h.file]
  · simp [h.seen]

theorem Keeps.refl (s : State) (p : Pc) : Keeps s p p := ⟨id, .inr, fun _ h => .inl h, fun _ h => .inl h⟩

theorem Keeps.toFail {s : State} {p : Pc} {job : Job} {e : AsterError}
    (h : p.works = true ∨ p.ends = true) : Keeps s p (.fail job e) := by
  refine ⟨?_, fun _ => h, ?_, ?_⟩
  · simp [Pc.works]
  · simp [Pc.file]
  · simp [Pc.seen]

theorem plain_finished : Plain .finished := ⟨rfl, rfl, rfl, rfl⟩

theorem plain_error (e : AsterError) : Plain (.returned (.error e)) := ⟨rfl, rfl, rfl, rfl⟩

theorem plain_abort (origin : Origin) (u : UploadSession) : Plain (.abort origin u) := ⟨rfl, rfl, rfl, rfl⟩

/-- Time goes by and objects may appear. -/
structure Calm (s s' : State) : Prop where
  clock : s.clock ≤ s'.clock
  objects : ∀ q ∈ s.objects, q ∈ s'.objects
  destroyed : s'.destroyed = s.destroyed

theorem Calm.refl (s : State) : Calm s s := ⟨le_refl _, fun _ h => h, rfl⟩

theorem calm_session (s : State) (session : Option UploadSession) : Calm s { s with session } :=
  ⟨le_refl _, fun _ h => h, rfl⟩

theorem calm_addObject (s : State) (path : String) : Calm s (s.addObject path) :=
  ⟨le_refl _, fun _ h => mem_cons_of_mem _ h, rfl⟩

/-- The steps, as far as the rows, the objects and the roles of the worker are concerned. -/
inductive Moves (a : Act κ) (s : State) (p p' : Pc) (s' : State) : Prop
  | quiet (calm : Calm s s') (hdb : s'.db = s.db) (hses : s'.session = s.session) (hp : Keeps s p p')
  | deleted (path : String) (htarget : p.target cfg = some path) (hs : s' = s.deleteObject path) (hp : Keeps s p p')
  | touched (u u' : UploadSession) (calm : Calm s s') (hdb : s'.db = s.db)
      (hu : s.session = some u) (hu' : s'.session = some u') (hstatus : u'.status = u.status)
      (hfile : u'.fileId = u.fileId) (hexpires : u'.expiresAt = u.expiresAt) (hp : Keeps s p p')
  | failed (u u' : UploadSession) (calm : Calm s s') (hdb : s'.db = s.db)
      (hu : s.session = some u) (hu' : s'.session = some u') (hstatus : u.status ≠ .completed)
      (hfailed : u'.status = .failed) (hp : Plain p')
  | claimed (job : Job) (now : ℕ) (u u' : UploadSession) (hclaim : p = .claim job now) (ha : a = .ok)
      (calm : Calm s s') (hdb : s'.db = s.db) (hu : s.session = some u) (hu' : s'.session = some u')
      (hlive : u.status = cfg.liveStatus) (hstatus : u'.status = .assembling)
      (hp : p' = .stage job)
  | restored (u u' : UploadSession) (hends : p.ends = true) (calm : Calm s s') (hdb : s'.db = s.db)
      (hu : s.session = some u) (hu' : s'.session = some u') (hasm : u.status = .assembling)
      (hlive : u'.status = cfg.liveStatus) (hp : Plain p')
  | marked (job : Job) (e : AsterError) (u u' : UploadSession) (hmark : p = .mark job e)
      (ha : a = .ok) (calm : Calm s s') (hdb : s'.db = s.db) (hu : s.session = some u)
      (hu' : s'.session = some u') (hfailed : u'.status = .failed) (hp : Plain p')
  | published (job : Job) (v : Verified) (etag : String) (f : File) (u : UploadSession) (db : Db)
      (hpublish : p = .publish job v) (hcommit : runPublication cfg v etag s = .ok (f, u, db))
      (hs : s' = { s with session := some u, db }) (hp : p' = afterCommit cfg job v f)
  | lost (job : Job) (v : Verified) (etag message : String) (f : File) (u : UploadSession) (db : Db)
      (hpublish : p = .publish job v) (ha : a = .lostCommit etag message)
      (hcommit : runPublication cfg v etag s = .ok (f, u, db))
      (hs : s' = { s with session := some u, db })
      (hp : p' = .fail job (.commitOutcomeUnknown message))
  | forgotten (calm : Calm s s') (hdb : s'.db = s.db) (hses : s'.session = none) (hp : Plain p')

/-- The calls that can be made whatever was read before. -/
def Pc.dull : Pc → Bool
  | .idle | .reconcile _ | .plan _ | .fail _ _ | .mark _ _ | .returned _ | .chunk _ | .expire _ _
  | .forget _ | .finished => true
  | _ => false

/-- How a worker comes to a call that deletes an object or acts on what was read earlier. -/
inductive Edge (s s' : State) : Pc → Pc → Prop
  | stay (p : Pc) : Edge s s' p p
  | dull (p : Pc) {p' : Pc} (h : p'.dull = true) : Edge s s' p p'
  | lookup (u : UploadSession) (hstatus : u.status = .completed) : Edge s s' (.plan u) (.lookup u)
  | verify (u : UploadSession) (hkind : cfg.kind.isPresignedSingle = true ∨ cfg.kind.isProviderResumable = true) :
      Edge s s' (.plan u) (.verify u)
  | reject (u : UploadSession) (e : AsterError)
      (hsize : cfg.kind.isProviderResumable = true → cfg.providerSize ≠ cfg.row.totalSize) :
      Edge s s' (.verify u) (.reject u e)
  | transit (p : Pc) (job : Job) (hsize : cfg.kind.isProviderResumable = true → cfg.providerSize = cfg.row.totalSize) :
      Edge s s' p (.transit job)
  | claim (job : Job) (now : ℕ) : Edge s s' (.transit job) (.claim job now)
  | ingest (job : Job) (now : ℕ) (hkind : cfg.kind = .stream) : Edge s s' .idle (.claim job now)
  | stage (job : Job) (now : ℕ) : Edge s s' (.claim job now) (.stage job)
  | multipart (job : Job) (key : String) (hkey : cfg.row.objectTempKey = some key)
      (hkind : cfg.kind.expectsMultipartId = true) :
      Edge s s' (.stage job) (.measure job (opaqueAt cfg key .retainCompletedMultipartObject))
  | resumable (job : Job) (key : String) (hkey : cfg.row.objectTempKey = some key)
      (hkind : cfg.kind.isProviderResumable = true) :
      Edge s s' (.stage job) (.publish job (opaqueAt cfg key .deleteStorageObjectOnDbFailure))
  | copied (job : Job) (path : String) (hnew : cfg.isNewPath s path = true) :
      Edge s s' (.stage job) (.measure job (opaqueAt cfg path .deleteStorageObjectOnDbFailure))
  | prepared (job : Job) (v : Verified) (hnew : cfg.isNewPath s v.storagePath = true)
      (hhonest : v.publication.Honest cfg.db) : Edge s s' (.stage job) (.publish job v)
  | content (job : Job) (body : κ) : Edge s s' (.stage job) (.publish job (contentVerified cfg job s body))
  | spoiledNew (job : Job) (path : String) (e : AsterError) (hnew : cfg.isNewPath s path = true) :
      Edge s s' (.stage job) (.discard job path e)
  | spoiledContent (job : Job) (body : κ) (e : AsterError) (hlinked : cfg.contentPath (cfg.hash body) ∉ s.objects) :
      Edge s s' (.stage job) (.discard job (cfg.contentPath (cfg.hash body)) e)
  | measured (job : Job) (v : Verified) : Edge s s' (.measure job v) (.publish job v)
  | mismatch (job : Job) (v : Verified) (e : AsterError) : Edge s s' (.measure job v) (.discard job v.storagePath e)
  | rollback (job : Job) (v : Verified) (e : AsterError) (hplan : v.cleanup = .rollbackStagedDedupIfUnreferenced) :
      Edge s s' (.publish job v) (.rollback job v e)
  | cleanup (job : Job) (v : Verified) (e : AsterError) (hplan : v.cleanup = .deleteStorageObjectOnDbFailure ∨
        v.cleanup = .cleanupPreuploadedBlobOnDbFailure) :
      Edge s s' (.publish job v) (.cleanup job v e)
  | unreferenced (job : Job) (v : Verified) (e : AsterError) : Edge s s' (.rollback job v e) (.cleanup job v e)
  | clear (job : Job) (v : Verified) (f : File) (hkind : cfg.kind.isPresignedSingle = true) :
      Edge s s' (.publish job v) (.clear job f)
  | cancel (u : UploadSession) (hstatus : u.status ≠ .completed) : Edge s s' .idle (.cancel u)
  | terminate (u : UploadSession) (hstatus : u.status = .uploading ∨ u.status = .presigned) :
      Edge s s' (.chunk u) (.terminate u)
  | sweep (u : UploadSession) (hses : s.session = some u) (hexpired : u.isExpired s.clock = true) :
      Edge s s' .idle (.sweep u)
  | abortSwept (u : UploadSession) (hstatus : u.status ≠ .assembling) : Edge s s' (.sweep u) (.abort .sweep u)
  | abortFailed (p : Pc) (origin : Origin) (u r : UploadSession) (hses : s'.session = some r)
      (hfailed : r.status = .failed) : Edge s s' p (.abort origin u)
  | delete (origin : Origin) (u : UploadSession) : Edge s s' (.abort origin u) (.delete origin u)

/-- What a step did to the rows, and how the worker came to its next call. -/
structure Turn (a : Act κ) (s : State) (p p' : Pc) (s' : State) : Prop where
  moves : Moves cfg a s p p' s'
  edge : Edge cfg s s' p p'

/-- What a worker knows about what it read and built, whatever happened since. -/
def Pc.Sound : Pc → Prop
  | .cancel u => u.status ≠ .completed
  | .terminate u => u.status = .uploading ∨ u.status = .presigned
  | .lookup u => u.status = .completed
  | .measure _ v | .publish _ v => v.publication.Honest cfg.db
  | _ => True

section Steps

variable {cfg} {a : Act κ} {s s' : State} {p p' : Pc} {job : Job} {u r r' : UploadSession}
  {e : AsterError} {v : Verified}

theorem Moves.same (hp : Keeps s p p') : Moves cfg a s p p' s := .quiet (.refl s) rfl rfl hp

theorem Moves.plain (hp : Plain p') : Moves cfg a s p p' s := .same hp.keeps

theorem Turn.of_edge {next : Pc} (h : some (s, next) = some (s', p')) (hp : Keeps s p next)
    (he : Edge cfg s s p next) : Turn cfg a s p p' s' := by
  cases h
  exact ⟨.same hp, he⟩

theorem Turn.of_dull {next : Pc} (h : some (s, next) = some (s', p')) (hp : Plain next)
    (hd : next.dull = true) : Turn cfg a s p p' s' := .of_edge h hp.keeps (.dull p hd)

theorem Turn.of_error (h : some (s, Pc.returned (.error e)) = some (s', p')) :
    Turn cfg a s p p' s' := .of_dull h (plain_error e) rfl

theorem Turn.of_finished (h : some (s, Pc.finished) = some (s', p')) : Turn cfg a s p p' s' :=
  .of_dull h plain_finished rfl

theorem update_cases (s : State) (f : UploadSession → Option UploadSession) : s.update f = s ∨
      ∃ u u', s.session = some u ∧ f u = some u' ∧ s.update f = { s with session := some u' } := by
  unfold State.update
  rcases hs : s.session with _ | u
  · left
    rw [map_none, ← hs]
  · rcases hf : f u with _ | u'
    · left
      rw [map_some, hf, getD_none, ← hs]
    · right
      exact ⟨u, u', rfl, hf, by rw [map_some, hf, getD_some]⟩

theorem stepUpdate_cases {f : UploadSession → Option UploadSession} {next : Pc} (h : stepUpdate s f next = (s', p')) :
    (s' = s ∧ p' = .finished) ∨ ∃ u u', s.session = some u ∧ f u = some u' ∧ s' = { s with session := some u' } ∧
        p' = next := by
  unfold stepUpdate at h
  split at h
  · rename_i u' hu'
    obtain ⟨u, hu, hf⟩ := bind_eq_some_iff.mp hu'
    cases h
    exact .inr ⟨u, u', hu, hf, rfl, rfl⟩
  · cases h
    exact .inl ⟨rfl, rfl⟩

theorem tryFail_some {expected : UploadSessionStatus} {expiresAt now : ℕ}
    (h : r.tryFailWithExpiration expected expiresAt now = some r') :
    r.status = expected ∧ r'.status = .failed := by
  unfold UploadSession.tryFailWithExpiration at h
  split_ifs at h with hstatus
  cases h
  exact ⟨hstatus, rfl⟩

theorem tryFailIfStale_some {leaseDeadline expiresAt now : ℕ}
    (h : r.tryFailWithExpirationIfLeaseStale leaseDeadline expiresAt now = some r') :
    r.status = .assembling ∧ r'.status = .failed := by
  unfold UploadSession.tryFailWithExpirationIfLeaseStale at h
  split_ifs at h with hstatus
  cases h
  exact ⟨hstatus.1, rfl⟩

theorem tryTransition_some {expected next : UploadSessionStatus} {now : ℕ}
    (h : r.tryTransitionStatus expected next now = some r') :
    r.status = expected ∧ r'.status = next := by
  unfold UploadSession.tryTransitionStatus at h
  split_ifs at h with hstatus
  cases h
  exact ⟨hstatus, rfl⟩

theorem tryTransitionBeforeExpiry_some {expected next : UploadSessionStatus} {now : ℕ}
    (h : r.tryTransitionStatusBeforeExpiry expected next now = some r') :
    r.status = expected ∧ r'.status = next := by
  unfold UploadSession.tryTransitionStatusBeforeExpiry at h
  split_ifs at h with hstatus
  cases h
  exact ⟨hstatus.1, rfl⟩

theorem stepUpdate_turn {f : UploadSession → Option UploadSession} {next : Pc}
    (hf : ∀ r r', f r = some r' → r.status ≠ .completed ∧ r'.status = .failed)
    (hnext : next = .finished ∨ ∃ origin, next = .abort origin u)
    (h : stepUpdate s f next = (s', p')) : Turn cfg a s p p' s' := by
  rcases stepUpdate_cases h with ⟨rfl, rfl⟩ | ⟨r, r', hr, hr', rfl, rfl⟩
  · exact ⟨.plain plain_finished, .dull p rfl⟩
  · obtain ⟨hstatus, hfailed⟩ := hf r r' hr'
    rcases hnext with rfl | ⟨origin, rfl⟩
    · exact ⟨.failed r r' (calm_session s _) rfl hr rfl hstatus hfailed plain_finished, .dull p rfl⟩
    · exact ⟨.failed r r' (calm_session s _) rfl hr rfl hstatus hfailed (plain_abort _ _),
        .abortFailed p origin u r' rfl hfailed⟩

theorem tryFail_turn {expected : UploadSessionStatus} {next : Pc} {expiresAt : ℕ}
    (hexpected : expected ≠ .completed) (hnext : next = .finished ∨ ∃ origin, next = .abort origin u)
    (h : stepUpdate s (fun r => r.tryFailWithExpiration expected expiresAt s.clock) next =
      (s', p')) : Turn cfg a s p p' s' := by
  refine stepUpdate_turn (fun r r' hr => ?_) hnext h
  obtain ⟨hstatus, hfailed⟩ := tryFail_some hr
  exact ⟨hstatus ▸ hexpected, hfailed⟩

theorem stepIdle_turn (h : stepIdle cfg s a = some (s', p')) : Turn cfg a s .idle p' s' := by
  have hplan : ∀ u, s.session = some u → Keeps s .idle (.plan u) := by
    intro u hu
    refine ⟨by simp [Pc.works], by simp [Pc.ends], by simp [Pc.file], ?_⟩
    intro u' hu'
    obtain rfl : u = u' := some.inj hu'
    exact .inr hu
  cases a with simp only [stepIdle] at h
  | complete =>
    split at h
    · exact .of_error h
    rename_i u hu
    split at h
    · exact .of_error h
    split_ifs at h
    · exact .of_dull h ⟨rfl, rfl, rfl, rfl⟩ rfl
    · exact .of_edge h (hplan u hu) (.dull _ rfl)
  | ingest =>
    split at h
    · exact .of_error h
    split_ifs at h with hkind
    · exact .of_error h
    · exact .of_error h
    · exact .of_error h
    · exact .of_edge h (Plain.keeps ⟨rfl, rfl, rfl, rfl⟩) (.ingest _ _ (not_not.mp hkind))
  | cancel =>
    split at h
    · exact .of_finished h
    · split_ifs at h with hstatus
      · exact .of_finished h
      · exact .of_edge h (Plain.keeps ⟨rfl, rfl, rfl, rfl⟩) (.cancel _ hstatus)
  | chunk =>
    split at h
    · exact .of_finished h
    · exact .of_dull h ⟨rfl, rfl, rfl, rfl⟩ rfl
  | sweep =>
    split at h
    · exact .of_finished h
    · rename_i u hu
      obtain ⟨hses, hexpired⟩ := filter_eq_some_iff.mp hu
      exact .of_edge h (Plain.keeps ⟨rfl, rfl, rfl, rfl⟩) (.sweep u hses hexpired)
  | advance seconds =>
    cases h
    exact ⟨.quiet ⟨Nat.le_add_right _ _, fun _ hq => hq, rfl⟩ rfl rfl (.refl s _), .stay _⟩
  | receipts n =>
    cases h
    refine ⟨?_, .stay _⟩
    rcases update_cases s fun u =>
        if u.status = .uploading then some { u with receivedCount := n } else none with
      heq | ⟨u, u', hu, hf, heq⟩
    · rw [heq]
      exact .same (.refl s _)
    · rw [heq]
      split_ifs at hf
      cases hf
      exact .touched u _ (calm_session s _) rfl hu rfl rfl rfl rfl (.refl s _)
  | clientPut =>
    split at h
    · simp at h
    · cases h
      exact ⟨.quiet (calm_addObject s _) rfl rfl (.refl s _), .stay _⟩
  | _ => simp [stepIdle] at h

theorem stepDelete_turn {path : String} {next : Pc} (htarget : p.target cfg = some path)
    (hnext : Keeps s p next) (hd : next.dull = true) (h : stepDelete path next s a = some (s', p')) :
    Turn cfg a s p p' s' := by
  cases a with
  | ok | lost _ =>
    cases h
    exact ⟨.deleted path htarget rfl hnext, .dull p hd⟩
  | error _ => exact .of_edge h hnext (.dull p hd)
  | _ => simp [stepDelete] at h

theorem stepClaim_turn {now : ℕ} (h : stepClaim cfg job now s = (s', p')) : Turn cfg .ok s (.claim job now) p' s' := by
  unfold stepClaim at h
  split at h
  · rename_i u' hu'
    obtain ⟨u, hu, hf⟩ := bind_eq_some_iff.mp hu'
    cases h
    obtain ⟨hlive, hstatus⟩ := tryTransitionBeforeExpiry_some hf
    exact ⟨.claimed job now u u' rfl rfl (calm_session s _) rfl hu rfl hlive hstatus rfl, .stage job now⟩
  · cases h
    exact ⟨.plain (plain_error _), .dull _ rfl⟩

theorem Keeps.working {q q' : Pc} (hq : q.works = true) (hf : q'.file = none) (hs : q'.seen = none)
    (he : q'.ends = false) : Keeps s q q' := by
  refine ⟨fun _ => hq, ?_, ?_, ?_⟩
  · simp [he]
  · simp [hf]
  · simp [hs]

theorem Turn.toFail (hp : p.works = true ∨ p.ends = true)
    (h : some (s, Pc.fail job e) = some (s', p')) : Turn cfg a s p p' s' :=
  .of_edge h (.toFail hp) (.dull p rfl)

theorem Turn.staged {path : String} {next : Pc} (hf : next.file = none) (hs : next.seen = none)
    (he : next.ends = false) (hedge : Edge cfg s (s.addObject path) (.stage job) next) :
    Turn cfg a s (.stage job) next (s.addObject path) :=
  ⟨.quiet (calm_addObject s _) rfl rfl (.working rfl hf hs he), hedge⟩

theorem stepStage_turn (h : stepStage cfg job s a = some (s', p')) : Turn cfg a s (.stage job) p' s' := by
  cases a with simp only [stepStage] at h
  | stagedTemp =>
    split at h
    · simp at h
    rename_i key hkey
    split_ifs at h with hmulti hresumable
    · cases h
      exact .staged rfl rfl rfl (.multipart job key hkey hmulti)
    · exact .of_edge h (.working rfl rfl rfl rfl) (.resumable job key hkey hresumable)
  | stagedNew prepared throughTemp =>
    split_ifs at h with hnew hsingle htakes hingest htemp
    all_goals cases h
    · exact .staged rfl rfl rfl (.copied job _ (Bool.not_eq_false _ ▸ hnew))
    all_goals exact .staged rfl rfl rfl (.prepared job _ (Bool.not_eq_false _ ▸ hnew) trivial)
  | stagedContent body =>
    split_ifs at h
    cases h
    exact .staged rfl rfl rfl (.content job body)
  | spoiledNew path e =>
    split_ifs at h with hnew
    cases h
    exact .staged rfl rfl rfl (.spoiledNew job path e hnew.2)
  | spoiledContent body e =>
    split_ifs at h with hlinked
    cases h
    exact .staged rfl rfl rfl (.spoiledContent job body e hlinked.2)
  | error e => exact .toFail (.inl rfl) h
  | _ => simp [stepStage] at h

theorem afterFailed_turn (h : some (s, afterFailedTransaction job v e) = some (s', p')) :
    Turn cfg a s (.publish job v) p' s' := by
  unfold afterFailedTransaction at h
  split at h
  · rename_i hplan
    exact .of_edge h (.working rfl rfl rfl rfl) (.cleanup job v e (.inl hplan))
  · rename_i hplan
    exact .of_edge h (.working rfl rfl rfl rfl) (.cleanup job v e (.inr hplan))
  · rename_i hplan
    exact .of_edge h (.working rfl rfl rfl rfl) (.rollback job v e hplan)
  all_goals exact .toFail (.inl rfl) h

theorem afterCommit_edge {f : File} : Edge cfg s s' (.publish job v) (afterCommit cfg job v f) := by
  unfold afterCommit
  split_ifs with hkind
  · exact .clear job v f hkind.1
  · exact .dull _ rfl

theorem stepPublish_turn (h : stepPublish cfg job v s a = some (s', p')) : Turn cfg a s (.publish job v) p' s' := by
  cases a with simp only [stepPublish] at h
  | commit etag =>
    split at h
    · rename_i f u db hcommit
      cases h
      exact ⟨.published job v etag f u db rfl hcommit rfl rfl, afterCommit_edge⟩
    · exact afterFailed_turn h
  | lostCommit etag message =>
    split at h
    · rename_i f u db hcommit
      cases h
      exact ⟨.lost job v etag message f u db rfl rfl hcommit rfl rfl, .dull _ rfl⟩
    · exact afterFailed_turn h
  | unknownRollback message => exact .toFail (.inl rfl) h
  | error e =>
    split_ifs at h
    exact afterFailed_turn h
  | _ => simp [stepPublish] at h

theorem stepFail_turn (h : stepFail cfg job e s a = some (s', p')) : Turn cfg a s (.fail job e) p' s' := by
  cases a with
  | ok =>
    simp only [stepFail] at h
    split_ifs at h
    · cases h
      refine ⟨?_, .dull _ rfl⟩
      rcases update_cases s fun u =>
          u.tryFailWithExpiration .assembling (s.clock + cleanupGraceSecs) s.clock with
        heq | ⟨r, r', hr, hf, heq⟩
      · rw [heq]
        exact .plain (plain_error _)
      · obtain ⟨hstatus, hfailed⟩ := tryFail_some hf
        rw [heq]
        exact .failed r r' (calm_session s _) rfl hr rfl (by rw [hstatus]; simp) hfailed (plain_error _)
    · cases h
      refine ⟨?_, .dull _ rfl⟩
      rcases update_cases s fun u => u.tryTransitionStatus .assembling cfg.liveStatus s.clock with
        heq | ⟨r, r', hr, hf, heq⟩
      · rw [heq]
        exact .plain (plain_error _)
      · obtain ⟨hstatus, hlive⟩ := tryTransition_some hf
        rw [heq]
        exact .restored r r' rfl (calm_session s _) rfl hr rfl hstatus hlive (plain_error _)
    · split at h
      · exact .of_error h
      · refine .of_edge h ⟨by simp [Pc.works], fun _ => .inr rfl, ?_, ?_⟩ (.dull _ rfl)
        · simp [Pc.file]
        · simp [Pc.seen]
  | error e' => exact .of_error h
  | _ => simp [stepFail] at h

theorem afterPlan_keeps (u : UploadSession) (plan : CompletionPlan) : Keeps s (.plan u) (afterPlan u plan) := by
  cases plan with
  | returnCompleted =>
    refine ⟨by simp [afterPlan, Pc.works], by simp [afterPlan, Pc.ends], ?_, fun _ h => .inl h⟩
    simp [afterPlan, Pc.file]
  | _ => exact Plain.keeps ⟨rfl, rfl, rfl, rfl⟩

theorem afterPlan_edge {parts : Option (List (ℤ × String))} {now : ℕ} {plan : CompletionPlan}
    (h : determineCompletionPlan u cfg.kind parts now = .ok plan) :
    Edge cfg s s' (.plan u) (afterPlan u plan) := by
  by_cases hplan : plan = .returnCompleted
  · subst hplan
    exact .lookup u (determineCompletionPlan_returnCompleted h)
  obtain ⟨hsingle, hresumable⟩ := determineCompletionPlan_own h hplan
  have hother : plan ≠ .completeProviderResumable → Edge cfg s s' (.plan u) (.transit { session := u }) :=
    fun hne => .transit _ _ fun hkind => absurd (hresumable.mpr hkind) hne
  cases plan with
  | returnCompleted => exact absurd rfl hplan
  | completePresigned => exact .verify u (.inl (hsingle rfl))
  | completeProviderResumable => exact .verify u (.inr (hresumable.mp rfl))
  | completePresignedMultipart _ | completeRelayMultipart | completeChunked =>
    exact hother (by simp)

theorem lookup_keeps (u : UploadSession) : Keeps s (.lookup u) (.returned (findFileBySession s.db u)) := by
  refine ⟨by simp [Pc.works], by simp [Pc.ends], ?_, by simp [Pc.seen]⟩
  intro f hf
  rcases hfound : findFileBySession s.db u with e | g
  · simp [hfound, Pc.file] at hf
  · rw [hfound] at hf
    obtain rfl : g = f := some.inj hf
    exact .inr ⟨u, rfl, hfound⟩

theorem stepSweep_turn (h : some (s, stepSweep u s) = some (s', p')) : Turn cfg a s (.sweep u) p' s' := by
  unfold stepSweep at h
  split_ifs at h with hfresh hstatus
  · exact .of_finished h
  · exact .of_finished h
  · exact .of_dull h ⟨rfl, rfl, rfl, rfl⟩ rfl
  · exact .of_edge h (plain_abort _ _).keeps (.abortSwept u hstatus)

theorem afterAbort_turn {origin : Origin} (h : some (s, afterAbort cfg origin u) = some (s', p')) :
    Turn cfg a s (.abort origin u) p' s' := by
  unfold afterAbort at h
  split_ifs at h
  · exact .of_edge h (Plain.keeps ⟨rfl, rfl, rfl, rfl⟩) (.delete origin u)
  · exact .of_dull h ⟨rfl, rfl, rfl, rfl⟩ rfl

theorem stepDeleteTemp_turn {origin : Origin} (h : stepDeleteTemp cfg origin s a = some (s', p')) :
    Turn cfg a s (.delete origin u) p' s' := by
  have hforget : Plain (.forget origin) := ⟨rfl, rfl, rfl, rfl⟩
  unfold stepDeleteTemp at h
  split at h
  · rename_i key hkey
    cases h
    exact ⟨.deleted key hkey rfl hforget.keeps, .dull _ rfl⟩
  · rename_i key _ hkey
    cases h
    exact ⟨.deleted key hkey rfl hforget.keeps, .dull _ rfl⟩
  · split_ifs at h
    · exact .of_dull h hforget rfl
    · exact .of_finished h
  · simp at h

theorem forgetRow_moves (origin : Origin) : Moves cfg a s (.forget origin) .finished (forgetRow origin s) := by
  have hgone : ∀ o : Option UploadSession, o = none →
      Moves cfg a s (.forget origin) .finished { s with session := o } := by
    intro o ho
    exact .forgotten (calm_session s o) rfl ho plain_finished
  cases origin with
  | terminate | sweep => exact hgone none rfl
  | cancel =>
    rcases hs : s.session with _ | u
    · exact hgone _ (by rw [hs]; rfl)
    · by_cases hu : u.isCancellable = false
      · refine .quiet (calm_session s _) rfl ?_ plain_finished.keeps
        simp [forgetRow, hs, hu]
      · refine hgone _ ?_
        simp [hs, hu]

theorem stepCancel_turn (hu : u.status ≠ .completed) (h : stepCancel u s = (s', p')) : Turn cfg a s p p' s' := by
  unfold stepCancel at h
  split_ifs at h
  · exact tryFail_turn (u := u) (by simp) (.inl rfl) h
  · exact tryFail_turn hu (.inr ⟨_, rfl⟩) h

theorem stepTick_turn (h : stepTick s p = (s', p')) : Turn cfg a s p p' s' := by
  unfold stepTick at h
  split at h
  · rename_i u' hu'
    obtain ⟨u, hu, hf⟩ := bind_eq_some_iff.mp hu'
    cases h
    unfold UploadSession.touchAssembling at hf
    split_ifs at hf
    cases hf
    exact ⟨.touched u _ (calm_session s _) rfl hu rfl rfl rfl rfl (.refl s p), .stay p⟩
  · cases h
    exact ⟨.plain (plain_error _), .dull p rfl⟩

theorem call_turn {next : Pc} (hnext : Keeps s p next) (he : Edge cfg s s p next) (h : (match a with
      | .ok => some (s, next)
      | .error e => some (s, .returned (.error e))
      | _ => none) = some (s', p')) : Turn cfg a s p p' s' := by
  split at h
  · exact .of_edge h hnext he
  · exact .of_error h
  · simp at h

theorem stepCall_turn (hp : p.Sound cfg) (h : stepCall cfg a s p = some (s', p')) : Turn cfg a s p p' s' := by
  cases p with simp only [stepCall] at h
  | idle => exact stepIdle_turn h
  | reconcile u =>
    split at h
    · split at h
      · exact .of_error h
      · rename_i r hr
        refine .of_edge h ⟨by simp [Pc.works], by simp [Pc.ends], by simp [Pc.file], ?_⟩ (.dull _ rfl)
        intro r' hr'
        obtain rfl : r = r' := some.inj hr'
        exact .inr hr
    · exact .of_error h
    · simp at h
  | plan u =>
    split at h
    · split at h
      · exact .of_error h
      · rename_i plan hplan
        exact .of_edge h (afterPlan_keeps u _) (afterPlan_edge hplan)
    · simp at h
  | lookup u => exact call_turn (lookup_keeps u) (.dull _ rfl) h
  | verify u =>
    split at h
    · rename_i size
      have hone : ¬ (cfg.kind.isProviderResumable = true ∧ (size : ℤ) ≠ cfg.providerSize) →
          cfg.kind.isProviderResumable = true → (size : ℤ) = cfg.providerSize :=
        fun hprovider hkind => not_not.mp fun hne => hprovider ⟨hkind, hne⟩
      split_ifs at h with hprovider hsize
      · refine .of_edge h (Plain.keeps ⟨rfl, rfl, rfl, rfl⟩) (.transit _ _ fun hkind => ?_)
        rw [← hone hprovider hkind, hsize]
      · refine .of_edge h (Plain.keeps ⟨rfl, rfl, rfl, rfl⟩) (.reject u _ fun hkind heq => hsize ?_)
        rw [hone hprovider hkind, heq]
    · exact .of_error h
    · simp at h
  | reject u e =>
    split at h
    · simp at h
    · rename_i key hkey
      exact stepDelete_turn hkey (plain_error _).keeps rfl h
  | transit job => exact call_turn (Plain.keeps ⟨rfl, rfl, rfl, rfl⟩) (.claim job s.clock) h
  | claim job now =>
    split at h
    · exact stepClaim_turn (some.inj h)
    · exact .of_error h
    · simp at h
  | stage job => exact stepStage_turn h
  | measure job v =>
    split at h
    · split_ifs at h
      · exact .of_edge h (.working rfl rfl rfl rfl) (.measured job v)
      · exact .of_edge h (.working rfl rfl rfl rfl) (.mismatch job v _)
    · exact .toFail (.inl rfl) h
    · simp at h
  | discard job path e | cleanup job v e => exact stepDelete_turn rfl (.toFail (.inl rfl)) rfl h
  | publish job v => exact stepPublish_turn h
  | rollback job v e =>
    split at h
    · split_ifs at h
      · exact .toFail (.inl rfl) h
      · exact .of_edge h (.working rfl rfl rfl rfl) (.unreferenced job v e)
    · exact .toFail (.inl rfl) h
    · simp at h
  | clear job f =>
    split at h
    · simp at h
    · rename_i key hkey
      refine stepDelete_turn hkey ⟨by simp [Pc.works], by simp [Pc.ends], ?_, by simp [Pc.seen]⟩ rfl h
      exact fun _ hf => .inl hf
  | fail job e => exact stepFail_turn h
  | mark job e =>
    split at h
    · cases h
      refine ⟨?_, .dull _ rfl⟩
      rcases update_cases s fun u => some (u.markFailed s.clock) with heq | ⟨r, r', hr, hf, heq⟩
      · rw [heq]
        exact .plain (plain_error _)
      · rw [heq]
        cases hf
        exact .marked job e r _ rfl rfl (calm_session s _) rfl hr rfl rfl (plain_error _)
    · exact .of_error h
    · simp at h
  | cancel u =>
    split at h
    · exact stepCancel_turn hp (some.inj h)
    · exact .of_finished h
    · simp at h
  | chunk u =>
    split at h
    · exact .of_finished h
    · split_ifs at h with hstatus
      · exact .of_edge h (Plain.keeps ⟨rfl, rfl, rfl, rfl⟩) (.terminate u hstatus.2)
      · exact .of_finished h
    · simp at h
  | terminate u =>
    split at h
    · refine tryFail_turn ?_ (.inr ⟨_, rfl⟩) (some.inj h)
      rcases hp with hp | hp <;> simp [hp]
    · exact .of_finished h
    · simp at h
  | sweep u =>
    split at h
    · exact stepSweep_turn h
    · simp at h
  | expire u leaseDeadline =>
    split at h
    · refine stepUpdate_turn (fun r r' hr => ?_) (.inr ⟨_, rfl⟩) (some.inj h)
      obtain ⟨hstatus, hfailed⟩ := tryFailIfStale_some hr
      exact ⟨by simp [hstatus], hfailed⟩
    · exact .of_finished h
    · simp at h
  | abort origin u =>
    split at h
    · exact afterAbort_turn h
    · split_ifs at h
      · exact afterAbort_turn h
      · exact .of_finished h
    · simp at h
  | delete origin u => exact stepDeleteTemp_turn h
  | forget origin =>
    split at h
    · cases h
      exact ⟨forgetRow_moves origin, .dull _ rfl⟩
    · exact .of_finished h
    · simp at h
  | returned _ | finished => simp [stepCall] at h

theorem step_turn (hp : p.Sound cfg) (h : step cfg a s p = some (s', p')) : Turn cfg a s p p' s' := by
  unfold step at h
  split at h
  · exact .of_finished h
  · split_ifs at h
    exact stepTick_turn (some.inj h)
  · exact stepCall_turn hp h

/-- No stored row has the digest of a body and another length. -/
def Setup.DigestsAgree (cfg : Setup κ) : Prop :=
  ∀ body, ∀ x ∈ cfg.db.blobs.rows, x.hash = cfg.hash body → x.backing = .stored → x.size = cfg.length body

theorem contentVerified_honest (hlaw : cfg.DigestsAgree) (body : κ) :
    (contentVerified cfg job s body).publication.Honest cfg.db := by
  unfold contentVerified
  split_ifs
  · exact hlaw body
  · exact trivial

theorem Pc.sound_of_dull (h : p.dull = true) : p.Sound cfg := by
  cases p <;> trivial

theorem step_sound (hlaw : cfg.DigestsAgree) (hp : p.Sound cfg)
    (h : step cfg a s p = some (s', p')) : p'.Sound cfg := by
  cases (step_turn hp h).edge with
  | stay | measured job v => exact hp
  | dull _ hdull => exact Pc.sound_of_dull hdull
  | lookup u hstatus | cancel u hstatus | terminate u hstatus => exact hstatus
  | multipart job key _ _ | resumable job key _ _ | copied job path _ => exact trivial
  | prepared job v _ hhonest => exact hhonest
  | content job body => exact contentVerified_honest hlaw body
  | _ => exact trivial

end Steps

end AsterDrive.Upload.Lifecycle
