import AsterDrive.Workspace.TeamArchive

/-!
# TeamArchiveSafety — what a purge of archived teams destroys

The list of expired teams is a snapshot, and so are the sessions of a team. Until the last transaction nothing looks at
the archived state again, and nothing at the blob rows before an object of a session is deleted. So a team that is
restored meanwhile loses its files, and a completed session takes the object of a blob that other workspaces share
(`purge_races_lost`).

`Undisturbed` is asked of the restores, and of the blob rows beside the sessions that a pass has loaded. In runs that
keep to it every file that a pass removes is of an archived team, and no object that is deleted is the content of a file
outside the team (`purge_destroys_archived`): the blobs of a purge are safe by the claims of their cleanups, whatever is
copied meanwhile.
-/

namespace AsterDrive.TeamArchive

open Db List Option Worker List.Subset Table

/-! ### What a pass has ahead -/

/-- The objects of upload sessions: policy and key. -/
def objectsOf (sessions : List TeamSession) : List (ℕ × String) :=
  sessions.filterMap fun s => s.objectTempKey.map fun key => (s.policyId, key)

/-- The objects that are still to be deleted. -/
def Phase.objects : Phase → List (ℕ × String)
  | .resolve s key rest | .abort s key rest | .delete s key rest => (s.policyId, key) :: objectsOf rest
  | .verify _ _ rest => objectsOf rest
  | .idle | .findSessions | .list | .purge _ | .settle | .finish => []

/-- The teams that are listed and not yet purged. -/
def Worker.pending (w : Worker) : List Team :=
  match w.phase with
  | .idle => []
  | .finish => w.teams.tail
  | .findSessions | .resolve _ _ _ | .abort _ _ _ | .delete _ _ _ | .verify _ _ _ | .list | .purge _ | .settle => w.teams

namespace Worker

variable (w : Worker)

@[simp] theorem pending_ofTeams (teams : List Team) : (ofTeams teams).pending = teams := by
  cases teams <;> rfl

@[simp] theorem pending_nextTeam : w.nextTeam.pending = w.teams.tail := pending_ofTeams _

theorem pending_nextSession (sessions : List TeamSession) : (w.nextSession sessions).pending ⊆ w.teams := by
  induction sessions with
  | nil =>
    unfold nextSession
    split_ifs
    · exact refl _
    · rw [pending_nextTeam]
      exact tail_subset _
  | cons s rest ih =>
    unfold nextSession
    split
    · exact ih
    · exact refl _

theorem pending_incomplete (rest : List TeamSession) : (w.incomplete rest).pending ⊆ w.teams :=
  pending_nextSession { w with complete := false } rest

end Worker

section Steps

variable {supportsMultipart : ℕ → Bool} {self : ℕ} {x x' : World} {w w' : Worker} {a : Act}

/-- What a step of a pass changes. -/
inductive Effect (self : ℕ) (x : World) (w : Worker) : World → Prop
  | read : Effect self x w x
  | purge {team : Team} {rest : List Team} {files : List File} {ids : List ℕ} {db : Db} (hteams : w.teams = team :: rest)
      (hphase : w.phase = .purge files) (hok : purgeFilesOn (.team team.id) files x.db = .ok (ids, db)) :
      Effect self x w
        { x with db, cleanups := x.cleanups ++ (heldBlobs x.db ids).map fun k => (some self, Cleanup.find k) }
  | finish {teamId : ℕ} {x' : World} (hok : deleteArchivedTeam x teamId = .ok x') : Effect self x w x'

/-- A team that is listed was listed before, or is expired. -/
def Lists (x : World) (w w' : Worker) : Prop :=
  ∀ t ∈ w'.pending, t ∈ w.pending ∨ ∃ before, t ∈ findArchivedBefore x.teams before

theorem Lists.of_subset (h : w'.pending ⊆ w.pending) : Lists x w w' := fun _ ht => .inl (h ht)

theorem proceed_effect {team : Team} {rest : List Team} (hteams : w.teams = team :: rest)
    (h : proceed supportsMultipart self x w team a = some (x', w')) : Effect self x w x' ∧ Lists x w w' := by
  have reads : ∀ {w1 : Worker}, some (x, w1) = some (x', w') → w.pending = w.teams → w1.pending ⊆ w.teams →
      Effect self x w x' ∧ Lists x w w' := by
    rintro w1 ⟨⟩ hpending hsub
    exact ⟨.read, .of_subset (hpending ▸ hsub)⟩
  have hnext : w.nextTeam.pending ⊆ w.teams := by
    rw [pending_nextTeam]
    exact tail_subset _
  cases a with
  | start _ | crash =>
    cases h
  | ok =>
    cases hphase : w.phase with simp only [proceed, hphase] at h
    | idle =>
      cases h
    | findSessions | delete s key rest => exact reads h (by simp only [pending, hphase]) (w.pending_nextSession _)
    | resolve s key rest =>
      refine reads h (by simp only [pending, hphase]) ?_
      split_ifs <;> exact refl _
    | abort s key rest => exact reads h (by simp only [pending, hphase]) (refl _)
    | verify s key rest => exact reads h (by simp only [pending, hphase]) (w.pending_incomplete _)
    | list =>
      have hpending : w.pending = w.teams := by simp only [pending, hphase]
      split at h
      · exact reads h hpending (tail_subset _)
      · exact reads h hpending (refl _)
    | purge files =>
      have hpending : w.pending = w.teams := by simp only [pending, hphase]
      split at h
      · exact reads h hpending hnext
      · rename_i ids db hok
        cases h
        refine ⟨.purge hteams hphase hok, .of_subset ?_⟩
        rw [hpending]
        exact refl _
    | settle =>
      split_ifs at h
      exact reads h (by simp only [pending, hphase]) (refl _)
    | finish =>
      have hpending : w.pending = w.nextTeam.pending := by
        rw [pending_nextTeam]
        simp only [pending, hphase]
      split at h
      · cases h
        exact ⟨.read, .of_subset (hpending ▸ refl _)⟩
      · rename_i hok
        cases h
        exact ⟨.finish hok, .of_subset (hpending ▸ refl _)⟩
  | fails =>
    cases hphase : w.phase with simp only [proceed, hphase] at h
    | idle | settle =>
      cases h
    | resolve s key rest | abort s key rest | verify s key rest =>
      exact reads h (by simp only [pending, hphase]) (w.pending_incomplete _)
    | delete s key rest => exact reads h (by simp only [pending, hphase]) (refl _)
    | findSessions | list | purge _ => exact reads h (by simp only [pending, hphase]) hnext
    | finish =>
      cases h
      refine ⟨.read, .of_subset ?_⟩
      rw [show w.pending = w.teams.tail by simp only [pending, hphase], pending_nextTeam]
      exact refl _
  | absent =>
    cases hphase : w.phase with simp only [proceed, hphase] at h
    | verify s key rest => exact reads h (by simp only [pending, hphase]) (w.pending_nextSession _)
    | _ => cases h

/-- **What a step of a pass does.** -/
theorem step_effect (h : step supportsMultipart self x w a = some (x', w')) : Effect self x w x' ∧ Lists x w w' := by
  cases a with
  | start before =>
    simp only [step] at h
    split_ifs at h
    cases h
    refine ⟨.read, fun t ht => .inr ⟨before, ?_⟩⟩
    rwa [pending_ofTeams] at ht
  | crash =>
    cases h
    exact ⟨.read, .of_subset (nil_subset _)⟩
  | ok | fails | absent =>
    simp only [step] at h
    split at h
    · cases h
    · rename_i hteams
      exact proceed_effect hteams h

end Steps

/-! ### Passes among other transactions -/

/-- Every file has its team (a foreign key), and no two blob rows of a policy share a path: keys are generated, and
content is stored under its hash. -/
structure Constrained (x : World) : Prop where
  teams : ∀ f ∈ x.db.files.rows, ∀ teamId, f.teamId = some teamId → ∃ t ∈ x.teams.rows, t.id = teamId
  paths : ∀ b ∈ x.db.blobs.rows, ∀ b' ∈ x.db.blobs.rows, b.policyId = b'.policyId → b.storagePath = b'.storagePath →
    b.storagePath.isSome → b = b'

/-- The world with other content. -/
def World.withDb (x : World) (db : Db) : World := { x with db }

/-- A cleanup among the others makes its next step. -/
def World.stepCleanup (x : World) (front back : List (Option ℕ × Cleanup)) (owner : Option ℕ) (c : Cleanup)
    (succeeds : Bool) : World :=
  { x with
    db := (Db.stepCleanup x.db succeeds c).1
    cleanups := front ++ ((Db.stepCleanup x.db succeeds c).2.toList.map (Prod.mk owner) ++ back) }

/-- The passes beside everything else; `loaded` are the file rows that requests have read, `nextTeam` is the next
serial. -/
structure Running where
  world : World
  loaded : List File := []
  workers : List Worker
  nextTeam : ℕ

/-- Whose step it is. -/
inductive Event
  | pass
  | cleanup
  | contribute
  | archive
  | restore (teamId : ℕ)
  | other

/-- A step of a pass or of a cleanup, or another transaction. -/
inductive RaceStep (env : Env) (supportsMultipart : ℕ → Bool) (r : Running) : Event → Running → Prop
  | pass {i : ℕ} {w w' : Worker} {a : Act} {world : World} (hw : r.workers[i]? = some w)
      (hstep : step supportsMultipart i r.world w a = some (world, w')) :
      RaceStep env supportsMultipart r .pass { r with world, workers := r.workers.set i w' }
  | cleanup {front back : List (Option ℕ × Cleanup)} {owner : Option ℕ} {c : Cleanup} (succeeds : Bool)
      (hsplit : r.world.cleanups = front ++ (owner, c) :: back) :
      RaceStep env supportsMultipart r .cleanup { r with world := r.world.stepCleanup front back owner c succeeds }
  /-- A request has dropped a reference. -/
  | spawn (blobId : ℕ) : RaceStep env supportsMultipart r .other
        { r with world := { r.world with cleanups := r.world.cleanups ++ [(none, .find blobId)] } }
  /-- A server stops. -/
  | abandon {front back : List (Option ℕ × Cleanup)} {e : Option ℕ × Cleanup} (hsplit : r.world.cleanups = front ++ e :: back) :
      RaceStep env supportsMultipart r .other { r with world := { r.world with cleanups := front ++ back } }
  | contribute {s : Server} (hstep : Contributes env ⟨r.world.db, r.loaded⟩ s) (hconstrained : Constrained (r.world.withDb s.db)) :
      RaceStep env supportsMultipart r .contribute { r with world := r.world.withDb s.db, loaded := s.loaded }
  | archive (teamId now : ℕ) : RaceStep env supportsMultipart r .archive { r with world := r.world.archive teamId now }
  | restore (teamId : ℕ) : RaceStep env supportsMultipart r (.restore teamId) { r with world := r.world.restore teamId }
  | createTeam {teams : Table Team.id} {usage : Usage} (quota : ℤ)
      (hteams : r.world.teams.insertNew { id := r.nextTeam } = some teams)
      (husage : r.world.db.usage.insertNew { scope := .team r.nextTeam, storageUsed := 0, storageQuota := quota } = some usage) :
      RaceStep env supportsMultipart r .other
        { r with world := { r.world.withDb { r.world.db with usage } with teams }, nextTeam := r.nextTeam + 1 }
  | sessions (sessions : Table TeamSession.id) :
      RaceStep env supportsMultipart r .other { r with world := { r.world with sessions } }

/-- The states reached by steps that all meet the guard. -/
inductive RaceReach (env : Env) (supportsMultipart : ℕ → Bool) (G : Running → Event → Running → Prop) (r₀ : Running) :
    Running → Prop
  | refl : RaceReach env supportsMultipart G r₀ r₀
  | step {r r' : Running} {e : Event} (hr : RaceReach env supportsMultipart G r₀ r)
      (hstep : RaceStep env supportsMultipart r e r') (hG : G r e r') : RaceReach env supportsMultipart G r₀ r'

/-- No blob row has the key of a session that a pass has loaded, and not dealt with. -/
def KeysFree (r : Running) : Prop :=
  ∀ w ∈ r.workers, ∀ o ∈ w.phase.objects, ∀ b ∈ r.world.db.blobs.rows, b.policyId = o.1 → b.storagePath ≠ some o.2

/-- **The condition.** No team is restored while a pass has it listed and not yet purged, and neither what a pass loads
nor what requests store has the object of a blob row among the sessions. -/
def Undisturbed (r : Running) : Event → Running → Prop
  | .pass, r' | .contribute, r' => KeysFree r'
  | .restore teamId, _ => ∀ w ∈ r.workers, ∀ t ∈ w.pending, t.id ≠ teamId
  | .cleanup, _ | .archive, _ | .other, _ => True

/-- A live revision of a file outside the team has its content in the object. -/
def ReferencedOutside (db : Db) (teamId policyId : ℕ) (path : String) : Prop :=
  ∃ b ∈ db.blobs.rows, b.policyId = policyId ∧ b.storagePath = some path ∧ 0 < b.refCount ∧
    ∃ r ∈ db.revisions.rows, r.retired = false ∧ r.blobId = some b.id ∧
      ∃ h ∈ db.histories.rows, h.id = r.historyId ∧ ∃ f ∈ db.files.rows, h.fileId = some f.id ∧ f.teamId ≠ some teamId

/-- What the next step may destroy. -/
structure DestroysOnlyArchived (supportsMultipart : ℕ → Bool) (r : Running) : Prop where
  /-- A file that a pass removes is of a team that is archived. -/
  files : ∀ i w a world w', r.workers[i]? = some w → step supportsMultipart i r.world w a = some (world, w') →
    ∀ f ∈ r.world.db.files.rows, world.db.files.get f.id = none →
      ∃ t ∈ r.world.teams.rows, f.teamId = some t.id ∧ t.archivedAt.isSome
  /-- The files of the other teams stay as they are. -/
  restored : ∀ i w a world w', r.workers[i]? = some w → step supportsMultipart i r.world w a = some (world, w') →
    ∀ t ∈ r.world.teams.rows, t.archivedAt = none → ∀ f ∈ r.world.db.files.rows, f.teamId = some t.id →
      f ∈ world.db.files.rows
  /-- The object of a session that a pass deletes next. -/
  sessions : ∀ w ∈ r.workers, ∀ s key rest, w.phase = .delete s key rest → ∀ team ∈ w.teams.head?,
    ¬ ReferencedOutside r.world.db team.id s.policyId key
  /-- The object that a cleanup deletes next. -/
  blobs : ∀ e ∈ r.world.cleanups, ∀ policyId path, e.2.object = some (policyId, path) →
    ∀ teamId, ¬ ReferencedOutside r.world.db teamId policyId path

/-- Where a run begins: orderly books, no pass and no cleanup. -/
structure Begins (r : Running) : Prop where
  ledger : Ledger r.world.db.files r.world.db.histories r.world.db.revisions ∅
  balanced : Balanced r.world.db.blobs r.world.db.revisions 0
  constrained : Constrained r.world
  cleanups : r.world.cleanups = []
  idle : ∀ w ∈ r.workers, w.phase = .idle
  serial : ∀ t ∈ r.world.teams.rows, t.id < r.nextTeam

/-! ### The invariant -/

/-- The books with exact counts; the accounts of users and teams do not matter here. -/
def countedBooks (env : Env) : Watched := env.watch True False (fun _ => trivial) False.elim

/-- What holds between two steps of an undisturbed run. -/
structure Safe (env : Env) (r : Running) : Prop where
  books : Consistent (countedBooks env) r.world.db
  constrained : Constrained r.world
  keys : KeysFree r
  claims : Claims r.world.db.blobs (r.world.cleanups.map Prod.snd)
  pending : ∀ w ∈ r.workers, ∀ t ∈ w.pending,
    t.id < r.nextTeam ∧ ∀ row ∈ r.world.teams.rows, row.id = t.id → row.archivedAt.isSome
  serial : ∀ t ∈ r.world.teams.rows, t.id < r.nextTeam

section Tables

variable {x x' : World} {t t' : Blobs} {teamId : ℕ}

theorem place_kept (hkept : BlobsKept t t') (hnext : t'.next = t.next) {b' : FileBlob} (hb' : b' ∈ t'.rows) :
    ∃ b ∈ t.rows, b.id = b'.id ∧ b.policyId = b'.policyId ∧ b.storagePath = b'.storagePath := by
  have hlt : b'.id < t.next := hnext ▸ t'.below b' hb'
  obtain ⟨b, hb, hsame⟩ := hkept.old b'.id b' hlt (get_of_mem hb')
  refine ⟨b, mem_of_get hb, key_of_get hb, ?_, ?_⟩
  · rw [hsame]
  · rw [hsame]

theorem Constrained.later (h : Constrained x)
    (hteams : ∀ f ∈ x'.db.files.rows, ∀ teamId, f.teamId = some teamId → ∃ t ∈ x'.teams.rows, t.id = teamId)
    (hkept : BlobsKept x.db.blobs x'.db.blobs) (hnext : x'.db.blobs.next = x.db.blobs.next) : Constrained x' := by
  refine ⟨hteams, fun b1 hb1 b2 hb2 hpolicy hpath hsome => ?_⟩
  obtain ⟨c1, hc1, hid1, hpolicy1, hpath1⟩ := place_kept hkept hnext hb1
  obtain ⟨c2, hc2, hid2, hpolicy2, hpath2⟩ := place_kept hkept hnext hb2
  have heq : c1 = c2 := by
    refine h.paths c1 hc1 c2 hc2 ?_ ?_ (hpath1 ▸ hsome)
    · rw [hpolicy1, hpolicy2, hpolicy]
    · rw [hpath1, hpath2, hpath]
  apply eq_of_key hb1 hb2
  rw [← hid1, ← hid2, heq]

theorem KeysFree.later {r : Running} (h : KeysFree r) (hkept : BlobsKept r.world.db.blobs x'.db.blobs)
    (hnext : x'.db.blobs.next = r.world.db.blobs.next) : KeysFree { r with world := x' } := by
  intro w hw o ho b' hb' hpolicy hpath
  obtain ⟨b, hb, _, hpolicy', hpath'⟩ := place_kept hkept hnext hb'
  exact h w hw o ho b hb (hpolicy'.trans hpolicy) (hpath'.trans hpath)

theorem mem_detach {files : Files} {f : File} (hf : f ∈ files.rows) :
    ∃ f' ∈ (detachFiles files teamId).rows, f'.id = f.id ∧ (f.teamId ≠ some teamId → f' = f) := by
  refine ⟨_, SerialTable.mem_updateRows.mpr ⟨f, hf, rfl⟩, ?_⟩
  split_ifs with hteam
  · exact ⟨rfl, fun hne => absurd (of_decide_eq_true hteam) hne⟩
  · exact ⟨rfl, fun _ => rfl⟩

/-- **Files lose their team**: the ledger does not look at it, but for the names. -/
theorem ledger_detach {files : Files} {histories : Histories} {revisions : Revisions} {P : Set ℕ}
    (L : Ledger files histories revisions P) (hnames : namesUnique (detachFiles files teamId)) :
    Ledger (detachFiles files teamId) histories revisions P := by
  have hold : ∀ f' ∈ (detachFiles files teamId).rows, ∃ f ∈ files.rows, f'.id = f.id ∧ f'.blobId = f.blobId ∧
      f'.size = f.size ∧ f'.mimeType = f.mimeType := by
    intro f' hf'
    obtain ⟨f, hf, rfl⟩ := SerialTable.mem_updateRows.mp hf'
    refine ⟨f, hf, ?_⟩
    split_ifs <;> exact ⟨rfl, rfl, rfl, rfl⟩
  refine ⟨fun f' hf' hp => ?_, fun h hh i hi => ?_, L.one, L.filed, L.content, L.distinct, L.below,
    fun f' hf' h hh hfile => ?_, fun f' hf' g' hg' hsome heq => ?_⟩
  · obtain ⟨f, hf, hid, _⟩ := hold f' hf'
    rw [hid] at hp ⊢
    exact L.kept f hf hp
  · obtain ⟨hp, f, hf, rfl⟩ := L.owned h hh i hi
    obtain ⟨f', hf', hid, _⟩ : ∃ f' ∈ (detachFiles files teamId).rows, _ := mem_detach hf
    exact ⟨hp, f', hf', hid⟩
  · obtain ⟨f, hf, hid, hblob, hsize, hmime⟩ := hold f' hf'
    obtain ⟨r, l, hl, hp⟩ := L.chain f hf h hh (hid ▸ hfile)
    refine ⟨r, l, hl, ?_, ?_, ?_⟩
    · rw [hblob]
      exact hp.blob
    · rw [hsize]
      exact hp.size
    · rw [hmime]
      exact hp.mime
  · unfold namesUnique at hnames
    rw [decide_eq_true_eq] at hnames
    exact eq_of_key hf' hg' (hnames f' hf' g' hg' hsome heq)

/-- **What the last transaction has done.** -/
theorem deleteArchivedTeam_ok (h : deleteArchivedTeam x teamId = .ok x') :
    (∃ t ∈ x.teams.rows, t.id = teamId ∧ t.archivedAt.isSome) ∧ namesUnique (detachFiles x.db.files teamId) ∧
      x'.teams = x.teams.deleteWhere (fun t => t.id = teamId) ∧ x'.cleanups = x.cleanups ∧
      x'.db.files = detachFiles x.db.files teamId ∧ x'.db.histories = x.db.histories ∧
      x'.db.revisions = x.db.revisions ∧ x'.db.blobs = x.db.blobs := by
  obtain ⟨team, hlock, h⟩ := bind_ok h
  dsimp only at h
  split_ifs at h with hnames
  cases h
  refine ⟨?_, hnames, rfl, rfl, rfl, rfl, rfl, rfl⟩
  unfold lockArchivedById at hlock
  split at hlock
  · rename_i t hrow
    rw [filter_eq_some_iff] at hrow
    exact ⟨t, mem_of_get hrow.1, key_of_get hrow.1, hrow.2⟩
  · cases hlock

theorem stepCleanup_next (db : Db) (succeeds : Bool) (c : Cleanup) :
    (Db.stepCleanup db succeeds c).1.blobs.next = db.blobs.next := by
  cases c with
  | find blobId =>
    simp only [Db.stepCleanup]
    split <;> rfl
  | removeObject b => rfl
  | claim b =>
    cases succeeds with
    | false => rfl
    | true =>
      simp only [Db.stepCleanup, if_true]
      split
      · rename_i blobs hclaim
        unfold claimBlobCleanup at hclaim
        split_ifs at hclaim
        cases hclaim
        rfl
      · rfl
  | delete blobId =>
    simp only [Db.stepCleanup]
    split_ifs
    · split
      · rename_i blobs hdelete
        unfold deleteBlobIfCleanupClaimed at hdelete
        split_ifs at hdelete
        cases hdelete
        rfl
      · rfl
    · rfl
  | restore blobId =>
    simp only [Db.stepCleanup]
    split_ifs
    · split
      · rename_i blobs hrestore
        unfold restoreBlobCleanupClaim at hrestore
        split_ifs at hrestore
        cases hrestore
        rfl
      · rfl
    · rfl

theorem stepCleanup_files (db : Db) (succeeds : Bool) (c : Cleanup) : (Db.stepCleanup db succeeds c).1.files = db.files := by
  cases c <;> simp only [Db.stepCleanup] <;> repeat' split
  all_goals rfl

end Tables

section Claims

variable {t : Blobs} {cs : List Cleanup}

theorem claims_append (h : Claims t cs) (blobIds : List ℕ) : Claims t (cs ++ blobIds.map .find) := by
  have hheld : (blobIds.map Cleanup.find).filterMap Cleanup.held = [] := by
    rw [filterMap_map, filterMap_eq_nil_iff]
    intro k _
    rfl
  have hseen : (blobIds.map Cleanup.find).filterMap Cleanup.seen = [] := by
    rw [filterMap_map, filterMap_eq_nil_iff]
    intro k _
    rfl
  refine ⟨?_, ?_, ?_⟩
  · rw [filterMap_append, hheld, append_nil]
    exact h.apart
  · rw [filterMap_append, hheld, append_nil]
    exact h.claimed
  · rw [filterMap_append, hseen, append_nil]
    exact h.seen

end Claims

/-! ### One step -/

section Step

variable {env : Env} {supportsMultipart : ℕ → Bool} {r r' : Running}

variable {teams : Table Team.id}

/-- The teams that a worker has listed stay archived, whatever happens to the other rows. -/
theorem Safe.listed (h : Safe env r) (hteams : ∀ row ∈ teams.rows, (∃ w ∈ r.workers, ∃ t ∈ w.pending, t.id = row.id) →
      ∃ old ∈ r.world.teams.rows, old.id = row.id ∧ (old.archivedAt.isSome → row.archivedAt.isSome)) :
    ∀ w ∈ r.workers, ∀ t ∈ w.pending, t.id < r.nextTeam ∧ ∀ row ∈ teams.rows, row.id = t.id → row.archivedAt.isSome := by
  intro w hw t ht
  obtain ⟨hlt, harchived⟩ := h.pending w hw t ht
  refine ⟨hlt, fun row hrow hid => ?_⟩
  obtain ⟨old, hold, holdid, himp⟩ := hteams row hrow ⟨w, hw, t, ht, hid.symm⟩
  exact himp (harchived old hold (holdid.trans hid))

theorem mem_findArchivedBefore {before : ℕ} {t : Team} (h : t ∈ findArchivedBefore teams before) :
    t ∈ teams.rows ∧ t.archivedAt.isSome := by
  unfold findArchivedBefore at h
  rw [mem_insertionSort, mem_filter] at h
  obtain ⟨hrow, hany⟩ := h
  refine ⟨hrow, ?_⟩
  cases harchived : t.archivedAt with
  | none =>
    rw [harchived] at hany
    cases hany
  | some time => rfl

/-- **A step of a pass.** -/
theorem Safe.pass (h : Safe env r) {i : ℕ} {w w' : Worker} {a : Act} {world : World} (hw : r.workers[i]? = some w)
    (hstep : step supportsMultipart i r.world w a = some (world, w'))
    (hkeys : KeysFree { r with world, workers := r.workers.set i w' }) :
    Safe env { r with world, workers := r.workers.set i w' } := by
  obtain ⟨heffect, hlists⟩ := step_effect hstep
  have hmem : w ∈ r.workers := mem_of_getElem? hw
  -- what the pass lists is archived now, and what the others list too
  have hpending : ∀ u ∈ r.workers.set i w', ∀ t ∈ u.pending,
      t.id < r.nextTeam ∧ ∀ row ∈ r.world.teams.rows, row.id = t.id → row.archivedAt.isSome := by
    intro u hu t ht
    rcases mem_or_eq_of_mem_set hu with hold | rfl
    · exact h.pending u hold t ht
    · rcases hlists t ht with hold | ⟨before, hnew⟩
      · exact h.pending w hmem t hold
      · obtain ⟨hrow, harchived⟩ := mem_findArchivedBefore hnew
        refine ⟨h.serial t hrow, fun row hrow' hid => ?_⟩
        rw [eq_of_key hrow' hrow hid]
        exact harchived
  cases heffect with
  | read => exact ⟨h.books, h.constrained, hkeys, h.claims, hpending, h.serial⟩
  | @purge team rest files ids db hteams hphase hok =>
    have hkeep := purge_keeps h.books hok
    obtain ⟨hfiles, _, hnext⟩ := purge_removes hok
    refine ⟨hkeep.finish, ?_, hkeys, ?_, hpending, h.serial⟩
    · refine h.constrained.later (fun f hf teamId hteam => ?_) hkeep.since.blobs hnext
      have hf' : f ∈ db.files.rows := hf
      rw [hfiles] at hf'
      exact h.constrained.teams f (mem_filter.mp hf').1 teamId hteam
    · have hclaims := claims_append (h.claims.frame hkeep.since.blobs fun k _ b hb hclaimed =>
        purge_spares h.books trivial hok k b hb hclaimed) (heldBlobs r.world.db ids)
      rw [map_append, List.map_map]
      exact hclaims
  | @finish teamId _ hok =>
    obtain ⟨_, hnames, hteams, hcleanups, hfiles, hhistories, hrevisions, hblobs⟩ := deleteArchivedTeam_ok hok
    have hsub : ∀ row ∈ world.teams.rows, row ∈ r.world.teams.rows := by
      intro row hrow
      rw [hteams] at hrow
      exact (mem_deleteWhere.mp hrow).1
    refine ⟨?_, ?_, hkeys, ?_, fun u hu t ht => ?_, fun t ht => h.serial t (hsub t ht)⟩
    · refine ⟨?_, fun hcounts => ?_, False.elim, .refl _⟩
      · show Ledger world.db.files world.db.histories world.db.revisions ∅
        rw [hfiles, hhistories, hrevisions]
        exact ledger_detach h.books.ledger hnames
      · show Balanced world.db.blobs world.db.revisions 0
        rw [hblobs, hrevisions]
        exact h.books.balanced hcounts
    · refine h.constrained.later (fun f' hf' T hT => ?_) (hblobs ▸ .refl _) (by rw [hblobs])
      rw [hfiles] at hf'
      obtain ⟨f, hf, rfl⟩ := SerialTable.mem_updateRows.mp hf'
      split_ifs at hT with hgone
      obtain ⟨row, hrow, hid⟩ := h.constrained.teams f hf T hT
      refine ⟨row, ?_, hid⟩
      rw [hteams]
      refine mem_deleteWhere.mpr ⟨hrow, decide_eq_false fun hdeleted => hgone ?_⟩
      rw [decide_eq_true_eq, hT, ← hid, hdeleted]
    · show Claims world.db.blobs (world.cleanups.map Prod.snd)
      rw [hblobs, hcleanups]
      exact h.claims
    · obtain ⟨hlt, harchived⟩ := hpending u hu t ht
      exact ⟨hlt, fun row hrow hid => harchived row (hsub row hrow) hid⟩

theorem consistent_usage {db : Db} (h : Consistent (countedBooks env) db) (usage : Usage) :
    Consistent (countedBooks env) { db with usage } :=
  ⟨h.ledger, h.balanced, False.elim, .refl _⟩

/-- **A step of a cleanup.** -/
theorem Safe.cleanup (h : Safe env r) {front back : List (Option ℕ × Cleanup)} {owner : Option ℕ} {c : Cleanup}
    (succeeds : Bool) (hsplit : r.world.cleanups = front ++ (owner, c) :: back) :
    Safe env { r with world := r.world.stepCleanup front back owner c succeeds } := by
  have hkeep := stepCleanup_keeps h.books succeeds c
  have hnext := stepCleanup_next r.world.db succeeds c
  have hclaims := h.claims
  rw [hsplit, map_append, map_cons] at hclaims
  refine ⟨hkeep.finish, ?_, h.keys.later hkeep.since.blobs hnext, ?_, h.pending, h.serial⟩
  · refine h.constrained.later (fun f hf teamId hteam => ?_) hkeep.since.blobs hnext
    have hf' : f ∈ (Db.stepCleanup r.world.db succeeds c).1.files.rows := hf
    rw [stepCleanup_files] at hf'
    exact h.constrained.teams f hf' teamId hteam
  · have hnew := stepCleanup_claims h.books hclaims succeeds
    show Claims _ ((front ++ ((Db.stepCleanup r.world.db succeeds c).2.toList.map (Prod.mk owner) ++ back)).map Prod.snd)
    rw [map_append, map_append, List.map_map]
    have hsnd : Prod.snd ∘ Prod.mk owner = (id : Cleanup → Cleanup) := rfl
    rw [hsnd, List.map_id]
    exact hnew

/-- **An upload or a copy.** -/
theorem Safe.contribute (h : Safe env r) {s : Server} (hstep : Contributes env ⟨r.world.db, r.loaded⟩ s)
    (hconstrained : Constrained (r.world.withDb s.db))
    (hkeys : KeysFree { r with world := r.world.withDb s.db, loaded := s.loaded }) :
    Safe env { r with world := r.world.withDb s.db, loaded := s.loaded } := by
  have horder : InOrder (countedBooks env) ⟨r.world.db, r.loaded⟩ := ⟨h.books, False.elim⟩
  have hkeep := step_keeps horder hstep.toStep
  refine ⟨hkeep.finish, hconstrained, hkeys, ?_, h.pending, h.serial⟩
  exact h.claims.frame hkeep.since.blobs fun k _ b hb hclaimed => hstep.spares k b hb hclaimed

/-- **An archive or a restore**, which leaves archived what is listed. -/
theorem Safe.setArchived (h : Safe env r) {teamId : ℕ} {archivedAt : Option ℕ}
    (hlisted : archivedAt.isSome ∨ ∀ w ∈ r.workers, ∀ t ∈ w.pending, t.id ≠ teamId) :
    Safe env { r with world := r.world.setArchived teamId archivedAt } := by
  have hold : ∀ row ∈ (r.world.setArchived teamId archivedAt).teams.rows, ∃ old ∈ r.world.teams.rows,
      old.id = row.id ∧ (row = old ∨ old.id = teamId ∧ row.archivedAt = archivedAt) := by
    intro row hrow
    obtain ⟨old, hold, rfl⟩ := List.mem_map.mp hrow
    refine ⟨old, hold, ?_⟩
    split_ifs with hid
    · exact ⟨rfl, .inr ⟨of_decide_eq_true hid, rfl⟩⟩
    · exact ⟨rfl, .inl rfl⟩
  refine ⟨consistent_usage h.books _, ?_, h.keys, h.claims, h.listed fun row hrow hpending => ?_, fun t ht => ?_⟩
  · refine ⟨fun f hf T hT => ?_, h.constrained.paths⟩
    obtain ⟨t, ht, rfl⟩ := h.constrained.teams f hf T hT
    have hrow : (if decide (t.id = teamId) then { t with archivedAt } else t) ∈
        (r.world.setArchived teamId archivedAt).teams.rows := List.mem_map_of_mem ht
    refine ⟨_, hrow, ?_⟩
    split_ifs <;> rfl
  · obtain ⟨old, hmem, hid, hcase⟩ := hold row hrow
    refine ⟨old, hmem, hid, fun harchived => ?_⟩
    rcases hcase with rfl | ⟨hteam, hset⟩
    · exact harchived
    · rw [hset]
      rcases hlisted with hsome | hfree
      · exact hsome
      · obtain ⟨w, hw, t, ht, hrowid⟩ := hpending
        exact absurd (hrowid.trans (hid.symm.trans hteam)) (hfree w hw t ht)
  · obtain ⟨old, hmem, hid, _⟩ := hold t ht
    exact hid ▸ h.serial old hmem

theorem Safe.createTeam (h : Safe env r) {usage : Usage}
    (hteams : r.world.teams.insertNew { id := r.nextTeam } = some teams) :
    Safe env { r with
      world := { r.world.withDb { r.world.db with usage } with teams }, nextTeam := r.nextTeam + 1 } := by
  obtain ⟨_, hrows⟩ := insertNew_eq_some hteams
  have hmem : ∀ t ∈ teams.rows, t ∈ r.world.teams.rows ∨ t = { id := r.nextTeam } := by
    intro t ht
    rw [hrows, mem_append, mem_singleton] at ht
    exact ht
  refine ⟨consistent_usage h.books usage, ⟨fun f hf T hT => ?_, h.constrained.paths⟩, h.keys, h.claims,
    fun w hw t ht => ?_, fun t ht => ?_⟩
  · obtain ⟨t, ht, hid⟩ := h.constrained.teams f hf T hT
    refine ⟨t, ?_, hid⟩
    show t ∈ teams.rows
    rw [hrows]
    exact mem_append_left _ ht
  · obtain ⟨hlt, harchived⟩ := h.pending w hw t ht
    refine ⟨Nat.lt_succ_of_lt hlt, fun row hrow hid => ?_⟩
    rcases hmem row hrow with hold | rfl
    · exact harchived row hold hid
    · have hserial : r.nextTeam = t.id := hid
      omega
  · rcases hmem t ht with hold | rfl
    · exact Nat.lt_succ_of_lt (h.serial t hold)
    · exact Nat.lt_succ_self _

/-- **Every step of an undisturbed run** keeps the invariant. -/
theorem safe_step {e : Event} (h : Safe env r) (hstep : RaceStep env supportsMultipart r e r') (hG : Undisturbed r e r') :
    Safe env r' := by
  cases hstep with
  | pass hw hstep => exact h.pass hw hstep hG
  | cleanup succeeds hsplit => exact h.cleanup succeeds hsplit
  | spawn blobId =>
    refine ⟨h.books, ⟨h.constrained.teams, h.constrained.paths⟩, h.keys, ?_, h.pending, h.serial⟩
    rw [map_append]
    exact claims_append h.claims [blobId]
  | abandon hsplit =>
    refine ⟨h.books, ⟨h.constrained.teams, h.constrained.paths⟩, h.keys, ?_, h.pending, h.serial⟩
    have hclaims := h.claims
    rw [hsplit, map_append, map_cons] at hclaims
    rw [map_append]
    exact hclaims.others
  | contribute hstep hconstrained => exact h.contribute hstep hconstrained hG
  | archive teamId now => exact h.setArchived (.inl rfl)
  | restore teamId => exact h.setArchived (.inr hG)
  | createTeam quota hteams husage => exact h.createTeam hteams
  | sessions sessions =>
    exact ⟨h.books, ⟨h.constrained.teams, h.constrained.paths⟩, h.keys, h.claims, h.pending, h.serial⟩

theorem Begins.safe (h : Begins r) : Safe env r := by
  refine ⟨⟨h.ledger, fun _ => h.balanced, False.elim, .refl _⟩, h.constrained, fun w hw o ho => ?_, ?_,
    fun w hw t ht => ?_, h.serial⟩
  · rw [h.idle w hw] at ho
    cases ho
  · rw [h.cleanups]
    exact .nil _
  · unfold pending at ht
    rw [h.idle w hw] at ht
    cases ht

theorem safe_run {r₀ : Running} (h₀ : Begins r₀) (hrun : RaceReach env supportsMultipart Undisturbed r₀ r) : Safe env r := by
  induction hrun with
  | refl => exact h₀.safe
  | step _ hstep hG ih => exact safe_step ih hstep hG

/-! ### What the next step destroys -/

theorem Safe.archived (h : Safe env r) {i : ℕ} {w : Worker} (hw : r.workers[i]? = some w) {team : Team}
    {rest : List Team} {files : List File} (hteams : w.teams = team :: rest) (hphase : w.phase = .purge files) :
    ∀ row ∈ r.world.teams.rows, row.id = team.id → row.archivedAt.isSome := by
  have hpending : team ∈ w.pending := by
    simp only [Worker.pending, hphase]
    rw [hteams]
    exact mem_cons_self
  exact (h.pending w (mem_of_getElem? hw) team hpending).2

theorem team_of_workspace {f : File} {teamId : ℕ} (h : f.workspace = some (.team teamId)) : f.teamId = some teamId := by
  unfold File.workspace at h
  split at h
  · rename_i T hT
    cases h
    exact hT
  · obtain ⟨_, _, hcontra⟩ := map_eq_some_iff.mp h
    cases hcontra

theorem Safe.destroys (h : Safe env r) : DestroysOnlyArchived supportsMultipart r := by
  refine ⟨?_, ?_, ?_, ?_⟩
  · intro i w a world w' hw hstep f hf hgone
    have hkeep : world.db.files.get f.id = some f → False := by
      intro hsome
      rw [hsome] at hgone
      cases hgone
    cases (step_effect hstep).1 with
    | read => exact absurd (Table.get_of_mem hf) hkeep
    | @purge team rest files ids db hteams hphase hok =>
      obtain ⟨hrows, hscope, _⟩ := purge_removes hok
      have hin : f.id ∈ ids := by
        by_contra hout
        refine hkeep (get_of_mem ?_)
        show f ∈ db.files.rows
        rw [hrows]
        exact mem_filter.mpr ⟨hf, decide_eq_true hout⟩
      have hteam := team_of_workspace (hscope f hf hin).2
      obtain ⟨t, ht, hid⟩ := h.constrained.teams f hf team.id hteam
      exact ⟨t, ht, hteam.trans (congrArg some hid.symm), h.archived hw hteams hphase t ht hid⟩
    | finish hok =>
      obtain ⟨_, _, _, _, hfiles, _⟩ := deleteArchivedTeam_ok hok
      obtain ⟨f', hf', hid, _⟩ := mem_detach hf
      rw [← hfiles] at hf'
      rw [← hid, show world.db.files.get f'.id = some f' from get_of_mem hf'] at hgone
      cases hgone
  · intro i w a world w' hw hstep t ht hactive f hf hteam
    cases (step_effect hstep).1 with
    | read => exact hf
    | @purge team rest files ids db hteams hphase hok =>
      obtain ⟨hrows, hscope, _⟩ := purge_removes hok
      show f ∈ db.files.rows
      rw [hrows]
      refine mem_filter.mpr ⟨hf, decide_eq_true fun hin => ?_⟩
      have hpurged := team_of_workspace (hscope f hf hin).2
      have hid : t.id = team.id := some.inj (hteam.symm.trans hpurged)
      have harchived := h.archived hw hteams hphase t ht hid
      rw [hactive] at harchived
      cases harchived
    | @finish teamId _ hok =>
      obtain ⟨⟨row, hrow, hid, harchived⟩, _, _, _, hfiles, _⟩ := deleteArchivedTeam_ok hok
      obtain ⟨f', hf', _, hsame⟩ := mem_detach hf
      have hother : f.teamId ≠ some teamId := by
        intro hdetached
        have hrowid : t.id = row.id := (some.inj (hteam.symm.trans hdetached)).trans hid.symm
        rw [← eq_of_key ht hrow hrowid, hactive] at harchived
        cases harchived
      rw [hfiles, ← hsame hother]
      exact hf'
  · rintro w hw s key rest hphase team _ ⟨b, hb, hpolicy, hpath, _⟩
    refine h.keys w hw (s.policyId, key) ?_ b hb hpolicy hpath
    rw [hphase]
    exact mem_cons_self
  · rintro e he policyId path hobject teamId ⟨b, hb, hpolicy, hpath, hcount, _⟩
    have hclaimed := h.claims.object_free (List.mem_map_of_mem he) hobject h.constrained.paths b hb hpolicy hpath
    rw [hclaimed] at hcount
    exact absurd hcount (by decide)

/-- **A purge of archived teams destroys only what is archived**, in every undisturbed run. -/
theorem purge_destroys_archived (env : Env) (supportsMultipart : ℕ → Bool) {r₀ r : Running} (h₀ : Begins r₀)
    (hrun : RaceReach env supportsMultipart Undisturbed r₀ r) : DestroysOnlyArchived supportsMultipart r :=
  (safe_run h₀ hrun).destroys

end Step

/-! ### Three runs

A team has one file. When a user copies it before it is purged, nothing is lost. When the team is restored between the
listing and the purge, its file goes; and when the upload session of the file is still there, the object goes that the
copy shares. -/

def teamAccounts : Db := { emptyDb with
  usage := ⟨[{ scope := .team 7, storageUsed := 0, storageQuota := 10 },
    { scope := .personal 1, storageUsed := 0, storageQuota := 10 }], by decide⟩ }

def storeInTeam : Txn File :=
  storeFromTemp sampleEnv.nextCopyName (.team 7 1) ((Body.content [97] "ca/97" 1).temp sampleEnv)
    (.newFile none "a.txt" .exact) "text/plain" 5 "etag"

def teamDb : Db := committed storeInTeam teamAccounts

def teamFile : File :=
  { id := 1, ownerUserId := none, teamId := some 7, folderId := none, name := "a.txt", blobId := 1
    size := 1, mimeType := "text/plain", updatedAt := 5 }

def copiedFile : File := { teamFile with id := 2, ownerUserId := some 1, teamId := none, updatedAt := 6 }

def copyOut : Txn File := duplicateFileRecord (.personal 1) ⟨teamFile, "a.txt", none⟩ 6 fun _ => "etag"

def sharedDb : Db := committed copyOut teamDb

/-- The team is archived; its upload session is still there. -/
def archivedWorld (db : Db) (key : String) : World :=
  World.archive ⟨db, ⟨[{ id := 7 }], by decide⟩, ⟨[⟨"upload", some 7, 1, some key, none⟩], nodup_singleton _⟩, []⟩ 7 3

theorem team_run : Db.Reach sampleEnv teamAccounts { db := teamDb } := by
  have hstore : storeInTeam teamAccounts = .ok (teamFile, teamDb) := rfl
  have hsent : (Body.content [97] "ca/97" 1).Sent sampleEnv := Set.mem_singleton _
  exact .step .start (.store hsent hstore)

theorem shared_run : Db.Reach sampleEnv teamAccounts ⟨sharedDb, [teamFile]⟩ := by
  have hload : Db.Step sampleEnv ⟨teamDb, []⟩ ⟨teamDb, [teamFile]⟩ := .load (mem_singleton_self teamFile)
  have hcopy : copyOut teamDb = .ok (copiedFile, sharedDb) := rfl
  exact .step (.step team_run hload) (.copyOne (mem_singleton_self teamFile) hcopy)

theorem begins_archived {s : Server} (key : String) (hrun : Db.Reach sampleEnv teamAccounts s)
    (hteams : ∀ f ∈ s.db.files.rows, f.teamId.getD 7 = 7) (hblobs : s.db.blobs.rows.length = 1) :
    Begins ⟨archivedWorld s.db key, [], [{}], 8⟩ := by
  have hempty : Consistent (countedBooks sampleEnv) teamAccounts :=
    ⟨ledger_empty, fun _ => balanced_of_exact (fun _ hb => absurd hb not_mem_nil)
      fun _ hr => absurd hr not_mem_nil, False.elim, .refl _⟩
  have hbooks := (inOrder_run hempty hrun).books
  refine ⟨hbooks.ledger, hbooks.balanced trivial, ⟨fun f hf teamId hteam => ?_, fun b hb b' hb' _ _ _ => ?_⟩, rfl,
    fun w hw => ?_, fun t ht => ?_⟩
  · refine ⟨⟨7, some 3⟩, mem_singleton_self _, ?_⟩
    have hseven := hteams f hf
    rw [hteam] at hseven
    exact hseven.symm
  · obtain ⟨x, hx⟩ := length_eq_one_iff.mp hblobs
    have hb1 : b ∈ s.db.blobs.rows := hb
    have hb2 : b' ∈ s.db.blobs.rows := hb'
    rw [hx, mem_singleton] at hb1 hb2
    rw [hb1, hb2]
  · rw [mem_singleton.mp hw]
  · rw [mem_singleton.mp ht]
    show 7 < 8
    omega

/-- Driver without multipart uploads. -/
def noMultipart : ℕ → Bool := fun _ => false

/-- The page of the team is listed, and its purge is next. -/
def atPurge : Worker := { teams := [⟨7, some 3⟩], afterFileId := some 1, phase := .purge [teamFile] }

instance (r : Running) : Decidable (KeysFree r) := by
  unfold KeysFree
  infer_instance

variable {env : Env} {G : Running → Event → Running → Prop}

theorem reach_read {r₀ : Running} {x : World} {loaded : List File}
    {n : ℕ} (w : Worker) (a : Act) (w' : Worker) (h : RaceReach env noMultipart G r₀ ⟨x, loaded, [w], n⟩)
    (hstep : step noMultipart 0 x w a = some (x, w'))
    (hG : G ⟨x, loaded, [w], n⟩ .pass ⟨x, loaded, [w'], n⟩) : RaceReach env noMultipart G r₀ ⟨x, loaded, [w'], n⟩ :=
  h.step (.pass (i := 0) rfl hstep) hG

def archivedTeam : Team := ⟨7, some 3⟩

/-- The pass has listed the team. -/
def atSessions : Worker := { teams := [archivedTeam], phase := .findSessions }

def upload (key : String) : TeamSession := ⟨"upload", some 7, 1, some key, none⟩

def atResolve (key : String) : Worker := { teams := [archivedTeam], phase := .resolve (upload key) key [] }

def atDelete (key : String) : Worker := { teams := [archivedTeam], phase := .delete (upload key) key [] }

def atList : Worker := { teams := [archivedTeam], phase := .list }

theorem delete_run (db : Db) (key : String) (hG : ∀ w ∈ [atSessions, atResolve key, atDelete key], ∀ w0,
      G ⟨archivedWorld db key, [], [w0], 8⟩ .pass ⟨archivedWorld db key, [], [w], 8⟩) :
    RaceReach env noMultipart G ⟨archivedWorld db key, [], [{}], 8⟩ ⟨archivedWorld db key, [], [atDelete key], 8⟩ := by
  have h1 := @reach_read env G _ _ _ _ {} (.start 10) atSessions .refl rfl (hG _ (by simp) _)
  have h2 := reach_read atSessions .ok (atResolve key) h1 rfl (hG _ (by simp) _)
  exact reach_read (atResolve key) .ok (atDelete key) h2 rfl (hG _ (by simp) _)

theorem purge_run (hG : ∀ r r', KeysFree r' → G r .pass r') : RaceReach env noMultipart G
      ⟨archivedWorld teamDb "temp/upload", [], [{}], 8⟩ ⟨archivedWorld teamDb "temp/upload", [], [atPurge], 8⟩ := by
  have hfree : ∀ w ∈ [atSessions, atResolve "temp/upload", atDelete "temp/upload", atList, atPurge],
      KeysFree ⟨archivedWorld teamDb "temp/upload", [], [w], 8⟩ := by decide
  have h3 := @delete_run env G teamDb "temp/upload" fun w hw w0 => by
    refine hG _ _ (hfree w ?_)
    exact mem_append_left [atList, atPurge] hw
  have h4 := reach_read (atDelete "temp/upload") .ok atList h3 rfl (hG _ _ (hfree _ (by simp)))
  exact reach_read atList .ok atPurge h4 rfl (hG _ _ (hfree _ (by simp)))

/-- A user copies the file before it is purged. -/
theorem purge_destroys_archived_copied : ∃ r, RaceReach sampleEnv noMultipart Undisturbed
    ⟨archivedWorld teamDb "temp/upload", [], [{}], 8⟩ r ∧ r.workers = [atPurge] ∧
      r.world.db.files.rows = [teamFile, copiedFile] ∧ DestroysOnlyArchived noMultipart r := by
  have hlisted := @purge_run sampleEnv Undisturbed fun _ _ h => h
  let db := (archivedWorld teamDb "temp/upload").db
  let db' := committed copyOut db
  have hload : Contributes sampleEnv ⟨db, []⟩ ⟨db, [teamFile]⟩ := .load (mem_singleton_self teamFile)
  have hok : copyOut db = .ok (copiedFile, db') := rfl
  have hcopy : Contributes sampleEnv ⟨db, [teamFile]⟩ ⟨db', [teamFile]⟩ := .copyOne (mem_singleton_self teamFile) hok
  have hbegins := begins_archived "temp/upload" team_run (by decide) (by decide)
  have hconstrained : Constrained ((archivedWorld teamDb "temp/upload").withDb db') :=
    (begins_archived "temp/upload" shared_run (by decide) (by decide)).constrained
  have hnone : ∀ x : World, KeysFree ⟨x, [teamFile], [atPurge], 8⟩ := by
    intro x w hw o ho
    rw [mem_singleton.mp hw] at ho
    cases ho
  have hrun := (hlisted.step (.contribute hload hbegins.constrained) (hnone _)).step
    (.contribute hcopy hconstrained) (hnone _)
  exact ⟨_, hrun, rfl, rfl, purge_destroys_archived sampleEnv noMultipart hbegins hrun⟩

/-- **Restored after the listing, or stored under the key of a session**: one run each, in which nothing else goes
wrong. -/
theorem purge_races_lost : (∃ r₀ r, Begins r₀ ∧ RaceReach sampleEnv noMultipart (fun _ _ r' => KeysFree r') r₀ r ∧
      ¬ DestroysOnlyArchived noMultipart r) ∧
    ∃ r₀ r, Begins r₀ ∧ RaceReach sampleEnv noMultipart (fun _ e _ => ∀ teamId, e ≠ .restore teamId) r₀ r ∧
      ¬ DestroysOnlyArchived noMultipart r := by
  constructor
  · let x := (archivedWorld teamDb "temp/upload").restore 7
    refine ⟨_, ⟨x, [], [atPurge], 8⟩, begins_archived "temp/upload" team_run (by decide) (by decide),
      (purge_run fun _ _ h => h).step (.restore 7) (by decide), fun hsafe => ?_⟩
    have hpurge : ((step noMultipart 0 x atPurge .ok).map fun y => (y.1.db.files.get teamFile.id).isNone) = some true := by
      decide
    obtain ⟨⟨x', w'⟩, hstep, hgone⟩ := map_eq_some_iff.mp hpurge
    obtain ⟨t, ht, _, harchived⟩ := hsafe.files 0 atPurge .ok x' w' rfl hstep teamFile (mem_singleton_self _)
      (isNone_iff_eq_none.mp hgone)
    obtain rfl : t = ⟨7, none⟩ := mem_singleton.mp ht
    cases harchived
  · refine ⟨_, ⟨archivedWorld sharedDb "ca/97", [], [atDelete "ca/97"], 8⟩,
      begins_archived "ca/97" shared_run (by decide) (by decide),
      delete_run sharedDb "ca/97" fun _ _ _ _ => nofun, fun hsafe => ?_⟩
    refine hsafe.sessions (atDelete "ca/97") (mem_singleton_self _) (upload "ca/97") "ca/97" [] rfl archivedTeam rfl ?_
    unfold ReferencedOutside
    decide

end AsterDrive.TeamArchive
