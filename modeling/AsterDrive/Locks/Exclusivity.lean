import AsterDrive.Locks.Runs

/-!
# Exclusivity — no two locks on one resource, unless both are shared

Two locks conflict if one of them is exclusive and one covers the root of the other: same root, or deep
and rooted above it in the tree. Acquisition sees the tree only through presentation paths, and these are
relative to a mount, prefixed with the team, or older than a move. `PathsFollowTree` is the condition
under which they tell the truth at an acquisition, and `locks_exclusive` says that nothing else is
needed: moves never create a conflict, and neither do release, cleanup, time, or the refresh of a lock
that has not expired.
-/

namespace AsterDrive.Locks.Runs

open Db Files Interleave Webdav List Option

/-- The two locks cannot both be honoured. -/
def Conflict (t : Tree) (l l' : ResourceLock) : Prop :=
  l.namespaceId = l'.namespaceId ∧ (l.mode = .exclusive ∨ l'.mode = .exclusive) ∧
    (Covers t l l'.root ∨ Covers t l' l.root)

/-- No two locks that have not expired conflict. -/
def NoConflict (s : State) : Prop :=
  ∀ l ∈ s.db.locks.rows, ∀ l' ∈ s.db.locks.rows, l.id ≠ l'.id → l.expired s.now = false →
    l'.expired s.now = false → ¬ Conflict s.db.tree l l'

structure Sound (s : State) : Prop where
  forests : Forests s.db
  roots : RootsOwned s.db
  free : NoConflict s

/-! ### The condition -/

/-- If the folder `r` is above `r'` in the tree, its path is an ancestor of the path of `r'`. -/
def PathFollows (t : Tree) (r r' : LockRoot) (path path' : Option String) : Prop :=
  r ≠ .workspaceRoot → Over t r r' → ∃ p p', path = some p ∧ path' = some p' ∧ Locks.pathIsAncestor p p'

/-- For an acquisition: a deep lock that has not expired and the request, one of them exclusive, are one
above the other in the tree only if their paths say so, in both directions. For a refresh or a
replacement: the lock it selects has not expired. -/
def PathsFollowTree (backend : DbBackend) (normalizeName : String → String) (s : State) (_ : Unit) (a : Act) : Prop :=
  (∀ ns db₁ command, requested backend normalizeName s a = some (ns, db₁, command) →
    ∀ e ∈ s.db.locks.rows, e.namespaceId = ns.id → e.expired s.now = false →
      (command.mode = .exclusive ∨ e.mode = .exclusive) →
      (e.depth = .infinity → PathFollows db₁.tree e.root command.target.root e.lockrootPath command.presentationPath) ∧
      (command.target.depth = .infinity →
        PathFollows db₁.tree command.target.root e.root command.presentationPath e.lockrootPath)) ∧
  ∀ l, selected s a = some l → l.expired s.now = false

section

variable {backend : DbBackend} {normalizeName : String → String} {indexRefuses : Tree → Bool}
variable {s s' : State} {a : Act} {t : Tree} {l l' : ResourceLock}

theorem Conflict.symm (h : Conflict t l l') : Conflict t l' l := ⟨h.1.symm, h.2.1.symm, h.2.2.symm⟩

/-- A conflict that is there after a change of the tree was there before, if deep locks reach no
further. -/
theorem Conflict.back {t' : Tree} (hl : l.depth = .infinity → Over t' l.root l'.root → Over t l.root l'.root)
    (hl' : l'.depth = .infinity → Over t' l'.root l.root → Over t l'.root l.root)
    (h : Conflict t' l l') : Conflict t l l' := by
  refine ⟨h.1, h.2.1, ?_⟩
  rcases h.2.2 with (hroot | ⟨hdeep, hover⟩) | (hroot | ⟨hdeep, hover⟩)
  · exact .inl (.inl hroot)
  · exact .inl (.inr ⟨hdeep, hl hdeep hover⟩)
  · exact .inr (.inl hroot)
  · exact .inr (.inr ⟨hdeep, hl' hdeep hover⟩)

theorem over_prepared {db db₁ : LockDb} {w : WorkspaceResourceScope} {r r' : LockRoot}
    (hprep : Prepared db db₁) (hin : RootIn db.tree w r') (h : Over db₁.tree r r') : Over db.tree r r' := by
  cases r with
  | workspaceRoot | file i => cases r' <;> exact h
  | folder i =>
    cases r' with
    | workspaceRoot => exact h
    | folder j =>
      unfold Over at h ⊢
      rwa [hprep.folders] at h
    | file j =>
      obtain ⟨f, hf, -⟩ := hin
      obtain ⟨x, p, hx, hp, hip⟩ := h
      obtain rfl : f = x := some.inj ((hprep.files j f hf).symm.trans hx)
      rw [hprep.folders] at hip
      exact ⟨f, p, hf, hp, hip⟩

theorem rootIn_prepared {db db₁ : LockDb} {w : WorkspaceResourceScope} {r : LockRoot}
    (hprep : Prepared db db₁) (hin : RootIn db.tree w r) : RootIn db₁.tree w r := by
  cases r with
  | workspaceRoot => trivial
  | file i =>
    obtain ⟨f, hf, hw⟩ := hin
    exact ⟨f, hprep.files i f hf, hw⟩
  | folder i =>
    unfold RootIn at hin ⊢
    rwa [hprep.folders]

theorem locksOverlap_of_conflict {command : LockAcquireCommand} {namespaceId now id : ℕ} {token : String}
    {e : ResourceLock}
    (hdown : e.depth = .infinity → PathFollows t e.root command.target.root e.lockrootPath command.presentationPath)
    (hup : command.target.depth = .infinity →
      PathFollows t command.target.root e.root command.presentationPath e.lockrootPath)
    (h : Covers t e command.target.root ∨ Covers t (command.row namespaceId token now id) e.root) :
    locksOverlap e command.target command.presentationPath := by
  unfold locksOverlap
  split_ifs with hroot hexisting hrequested
  · rfl
  · rfl
  · rfl
  -- neither is a deep lock on the workspace root, and the roots differ: the paths decide
  rcases h with (heq | ⟨hdeep, hover⟩) | (heq | ⟨hdeep, hover⟩)
  · exact absurd heq hroot
  · have hne : e.root ≠ .workspaceRoot := fun hws => hexisting ⟨hws, hdeep⟩
    obtain ⟨p, p', hp, hp', hanc⟩ := hdown hdeep hne hover
    simp [hp, hp', hanc, hdeep]
  · exact absurd heq.symm hroot
  · have hne : command.target.root ≠ .workspaceRoot := fun hws => hrequested ⟨hws, hdeep⟩
    have hdeep' : command.target.depth = .infinity := hdeep
    obtain ⟨p, p', hp, hp', hanc⟩ := hup hdeep' hne hover
    simp [hp, hp', hanc, hdeep']

/-! ### One step -/

theorem Sound.acquired {ns : ResourceLockNamespace} {db₁ db' : LockDb} {command : LockAcquireCommand}
    {token : String} {row : ResourceLock} (hs : Sound s) (hprep : Prepared s.db db₁)
    (hacq : Acquired db₁ ns command token s.now row db')
    (hpaths : ∀ e ∈ s.db.locks.rows, e.namespaceId = ns.id → e.expired s.now = false →
      (command.mode = .exclusive ∨ e.mode = .exclusive) →
      (e.depth = .infinity → PathFollows db₁.tree e.root command.target.root e.lockrootPath command.presentationPath) ∧
      (command.target.depth = .infinity →
        PathFollows db₁.tree command.target.root e.root command.presentationPath e.lockrootPath)) :
    Sound ⟨db', s.now⟩ := by
  have hmem : ∀ l, l ∈ db'.locks.rows → l ∈ s.db.locks.rows ∨ l = row := by
    intro l hl
    rw [hacq.rows, hprep.locks] at hl
    rcases mem_append.mp hl with hl | hl
    · exact .inl (mem_of_mem_filter hl)
    · exact .inr (mem_singleton.mp hl)
  -- an old lock and the new one
  have hnew : ∀ e ∈ s.db.locks.rows, e.expired s.now = false → ¬ Conflict db₁.tree e row := by
    rintro e he hlive ⟨hns, hmode, hcovers⟩
    rw [hacq.lock] at hns hmode hcovers
    obtain ⟨hdown, hup⟩ := hpaths e he hns hlive hmode.symm
    refine hacq.free e (hprep.locks ▸ he) hns hlive ?_ hmode.symm
    exact locksOverlap_of_conflict hdown hup hcovers
  refine ⟨fun w => ?_, fun l hl => ?_, ?_⟩
  · have hfolders : db'.tree.folders = s.db.tree.folders := by rw [hacq.frame.tree, hprep.folders]
    show LiveForest w db'.tree.folders
    rw [hfolders]
    exact hs.forests w
  · show ∃ w, db'.workspaceOf l.namespaceId = some w ∧ RootIn db'.tree w l.root
    rw [hacq.frame.tree]
    rcases hmem l hl with hold | rfl
    · obtain ⟨w, hw, hin⟩ := hs.roots l hold
      exact ⟨w, hacq.frame.workspaces _ _ (hprep.workspaces _ _ hw), rootIn_prepared hprep hin⟩
    · have hws : db₁.workspaceOf ns.id = some command.target.workspace := by
        simp [LockTables.workspaceOf, hacq.taken, hacq.workspace]
      rw [hacq.lock]
      exact ⟨_, hacq.frame.workspaces _ _ hws, hacq.root⟩
  · intro l hl l' hl' hid hlive hlive' hconf
    have hconf : Conflict db₁.tree l l' := by rwa [← hacq.frame.tree]
    rcases hmem l hl with hold | rfl
    · rcases hmem l' hl' with hold' | rfl
      · obtain ⟨w, -, hin⟩ := hs.roots l hold
        obtain ⟨w', -, hin'⟩ := hs.roots l' hold'
        exact hs.free l hold l' hold' hid hlive hlive'
          (hconf.back (fun _ => over_prepared hprep hin') (fun _ => over_prepared hprep hin))
      · exact hnew l hold hlive hconf
    · rcases hmem l' hl' with hold' | rfl
      · exact hnew l' hold' hlive' hconf.symm
      · exact hid rfl

theorem Sound.released {db' : LockDb} (hs : Sound s) (h : Released s.db db') : Sound ⟨db', s.now⟩ := by
  obtain ⟨p, hp⟩ := h.rows
  have hmem : ∀ l, l ∈ db'.locks.rows → l ∈ s.db.locks.rows := by
    intro l hl
    rw [hp] at hl
    exact mem_of_mem_filter hl
  refine ⟨fun w => ?_, fun l hl => ?_, fun l hl l' hl' hid hlive hlive' hconf => ?_⟩
  · show LiveForest w db'.tree.folders
    rw [h.frame.tree]
    exact hs.forests w
  · obtain ⟨w, hw, hin⟩ := hs.roots l (hmem l hl)
    refine ⟨w, h.frame.workspaces _ _ hw, ?_⟩
    show RootIn db'.tree w l.root
    rwa [h.frame.tree]
  · have hconf : Conflict s.db.tree l l' := by rwa [← h.frame.tree]
    exact hs.free l (hmem l hl) l' (hmem l' hl') hid hlive hlive' hconf

theorem conflict_retime {ownerInfo : Option ResourceLockOwnerInfo} {timeoutAt : Option ℕ} {p p' : Prop}
    [Decidable p] [Decidable p']
    (h : Conflict t (if p then retime ownerInfo timeoutAt l else l)
      (if p' then retime ownerInfo timeoutAt l' else l')) : Conflict t l l' := by
  split_ifs at h <;> exact h

theorem Sound.retimed {db' : LockDb} {current : ResourceLock} {ownerInfo : Option ResourceLockOwnerInfo}
    {timeoutAt : Option ℕ} (hs : Sound s) (hcur : current ∈ s.db.locks.rows)
    (hlive : current.expired s.now = false)
    (hrows : db'.locks.rows = s.db.locks.rows.map fun l =>
      if decide (l.id = current.id) then retime ownerInfo timeoutAt l else l)
    (hframe : Frame s.db db') : Sound ⟨db', s.now⟩ := by
  -- a row that has not expired afterwards had not expired before
  have hmem : ∀ l', l' ∈ db'.locks.rows → ∃ l ∈ s.db.locks.rows,
      (if decide (l.id = current.id) then retime ownerInfo timeoutAt l else l) = l' ∧ l'.id = l.id ∧
        (l'.expired s.now = false → l.expired s.now = false) := by
    intro l' hl'
    rw [hrows] at hl'
    obtain ⟨l, hl, rfl⟩ := List.mem_map.mp hl'
    refine ⟨l, hl, rfl, ?_, fun hexp => ?_⟩
    · split_ifs <;> rfl
    · split_ifs at hexp with hid
      · obtain rfl := Table.eq_of_key hl hcur (of_decide_eq_true hid)
        exact hlive
      · exact hexp
  refine ⟨fun w => ?_, fun l' hl' => ?_, fun l1 hl1 l2 hl2 hid hlive1 hlive2 hconf => ?_⟩
  · show LiveForest w db'.tree.folders
    rw [hframe.tree]
    exact hs.forests w
  · obtain ⟨l, hl, rfl, -, -⟩ := hmem l' hl'
    obtain ⟨w, hw, hin⟩ := hs.roots l hl
    refine ⟨w, hframe.workspaces _ _ ?_, ?_⟩
    · split_ifs <;> exact hw
    · show RootIn db'.tree w _
      rw [hframe.tree]
      split_ifs <;> exact hin
  · have hconf : Conflict s.db.tree l1 l2 := by rwa [← hframe.tree]
    obtain ⟨l, hl, rfl, hlid, hlexp⟩ := hmem l1 hl1
    obtain ⟨l', hl', rfl, hlid', hlexp'⟩ := hmem l2 hl2
    refine hs.free l hl l' hl' ?_ (hlexp hlive1) (hlexp' hlive2) (conflict_retime hconf)
    rwa [hlid, hlid'] at hid

theorem Sound.moved {db' : LockDb} (hs : Sound s) (h : Moved s.db db' s.now) : Sound ⟨db', s.now⟩ := by
  refine ⟨h.forest hs.forests, fun l hl => ?_, fun l hl l' hl' hid hlive hlive' hconf => ?_⟩
  · obtain ⟨w, hw, hin⟩ := hs.roots l (h.locks ▸ hl)
    exact ⟨w, h.workspaces _ _ hw, h.roots w l.root hin⟩
  · have hl : l ∈ s.db.locks.rows := h.locks ▸ hl
    have hl' : l' ∈ s.db.locks.rows := h.locks ▸ hl'
    refine hs.free l hl l' hl' hid hlive hlive' (Conflict.back ?_ ?_ hconf)
    · exact fun hdeep => h.reach hs.forests hs.roots l hl hlive hdeep l'.root
    · exact fun hdeep => h.reach hs.forests hs.roots l' hl' hlive' hdeep l.root

theorem Sound.advanced {later : ℕ} (hs : Sound s) (h : s.now ≤ later) : Sound ⟨s.db, later⟩ := by
  -- what has not expired later has not expired yet
  have hback : ∀ {l : ResourceLock}, l.expired later = false → l.expired s.now = false := by
    intro l hlater
    by_contra hexp
    have := ResourceLock.expired_mono (Bool.eq_true_of_not_eq_false hexp) h
    rw [hlater] at this
    cases this
  exact ⟨hs.forests, hs.roots, fun l hl l' hl' hid hlive hlive' =>
    hs.free l hl l' hl' hid (hback hlive) (hback hlive')⟩

theorem step_sound (hs : Sound s) (hg : PathsFollowTree backend normalizeName s () a)
    (h : apply backend normalizeName indexRefuses s a = some s') : Sound s' := by
  cases step_effect h with
  | acquired hreq hprep hacq => exact hs.acquired hprep hacq (hg.1 _ _ _ hreq)
  | released hrel => exact hs.released hrel
  | retimed hsel hrows _ hframe =>
    refine hs.retimed ?_ (hg.2 _ hsel) hrows hframe
    exact selected_mem hsel
  | moved hmoved => exact hs.moved hmoved
  | advanced hle => exact hs.advanced hle

end

/-- **Locks are exclusive in every state of a run** in which acquisitions meet paths that follow the tree
and only locks that have not expired are refreshed. -/
theorem locks_exclusive (backend : DbBackend) (normalizeName : String → String) (indexRefuses : Tree → Bool)
    (s : State) (hs : Sound s) (c : Config State Unit)
    (h : Interleave.Reach (system backend normalizeName indexRefuses)
      (PathsFollowTree backend normalizeName) (start s) c) : NoConflict c.shared := by
  have hall : Sound c.shared := by
    refine h.induct (I := fun c => Sound c.shared) hs ?_
    intro c c' i a hc hg hf
    exact step_sound hc hg (apply_of_fire hf)
  exact hall.free

/-- A folder with a file in it, another file beside it, and no locks. -/
def docsAndFiles : State where
  db :=
    { namespaces := { SerialTable.empty with oneEach := nodup_nil }
      locks := .empty
      owned := fun _ h => nomatch h
      tree :=
        { folders :=
            { rows := [⟨1, some 7, none, none, "docs", none⟩]
              unique := by decide
              next := 2
              below := by decide }
          files :=
            { rows := [⟨1, some 7, none, some 1, "a.txt", 1, 0, "text/plain", 0, none⟩,
                ⟨2, some 7, none, none, "b.txt", 1, 0, "text/plain", 0, none⟩]
              unique := by decide
              next := 3
              below := by decide } }
      users := [7]
      teams := [] }
  now := 0

theorem docsAndFiles_sound : Sound docsAndFiles where
  forests w := .of_rows (by decide) (by simp [docsAndFiles])
  roots := fun _ h => nomatch h
  free := fun _ h => nomatch h

/-- LOCK of a path through a mount, exclusive, for an hour. -/
def exclusiveLock (rootFolderId : Option ℕ) (path : String) (deep : Bool) (token : String) : Act :=
  .davLock
    { scope := .personal 7, rootFolderId, path, ownerInfo := none, timeout := some 3600, shared := false, deep
      submittedLockTokens := [], maxActiveLocks := 10 }
    none token

/-- The folder, locked with everything in it. -/
def docsLock : ResourceLock :=
  ⟨1, "s", 1, .folder 1, .infinity, .exclusive, .webDav, some 7, none, some 3600, some "/docs/"⟩

/-- The folder is locked with everything in it, and then the file beside it. -/
theorem locks_exclusive_beside : ∃ c, Interleave.Reach (system .sqlite id fun _ => false) (PathsFollowTree .sqlite id)
        (start docsAndFiles) c ∧
      c.shared.db.locks.rows.map (fun l => (l.root, l.depth, l.mode)) =
        [(.folder 1, .infinity, .exclusive), (.file 2, .resource, .exclusive)] ∧
      NoConflict c.shared := by
  have hfirst : ((system .sqlite id fun _ => false).fire (start docsAndFiles) 0
      (exclusiveLock none "/docs/" true "s")).map (fun c => (c.shared.db.tree.files.rows, c.shared.db.locks.rows)) =
      some (docsAndFiles.db.tree.files.rows, [docsLock]) := by
    decide
  have hsecond : (((system .sqlite id fun _ => false).fire (start docsAndFiles) 0
      (exclusiveLock none "/docs/" true "s")).bind fun c =>
        (system .sqlite id fun _ => false).fire c 0 (.lock .file 2 7 "t")).map
          (fun c => c.shared.db.locks.rows.map fun l => (l.root, l.depth, l.mode)) =
      some [(.folder 1, .infinity, .exclusive), (.file 2, .resource, .exclusive)] := by
    decide
  obtain ⟨c₁, hc₁, hfiles, hlocks⟩ := map_pair_eq_some hfirst
  obtain ⟨c, hc, hrows⟩ := map_eq_some_iff.mp hsecond
  rw [hc₁, bind_some] at hc
  have hreach₁ : Interleave.Reach (system .sqlite id fun _ => false) (PathsFollowTree .sqlite id)
      (start docsAndFiles) c₁ := by
    refine Interleave.Reach.refl.step ⟨?_, ?_⟩ hc₁
    · intro ns db₁ command _ e he
      cases he
    · intro l hl
      cases hl
  have hreach := hreach₁.step (i := 0) (a := Act.lock .file 2 7 "t") ⟨?_, by simp [selected]⟩ hc
  · exact ⟨c, hreach, hrows, locks_exclusive _ _ _ _ docsAndFiles_sound c hreach⟩
  -- the second file is not below the folder, and its own lock is not deep
  intro ns db₁ command hreq e he _ _ _
  have hprep : prepareLock c₁.shared.db .file 2 (some 7) none none = .ok (ns, db₁, command) := by
    cases hp : prepareLock c₁.shared.db .file 2 (some 7) none none with
    | error e => simp [requested, hp, Except.toOption] at hreq
    | ok r => simpa [requested, hp, Except.toOption] using hreq
  obtain ⟨⟨-, -, hroot, hdepth⟩, -, -, hframe, -⟩ := prepareLock_ok hprep
  rw [hlocks] at he
  obtain rfl := mem_singleton.mp he
  refine ⟨fun _ _ hover => ?_, fun hdeep => ?_⟩
  · rw [hroot, hframe.tree] at hover
    obtain ⟨x, p, hx, hp, -⟩ := hover
    obtain ⟨hmem, hid⟩ := Table.get_eq_some_iff.mp hx
    rw [hfiles] at hmem
    simp only [docsAndFiles, mem_cons, not_mem_nil, or_false] at hmem
    rcases hmem with rfl | rfl
    · cases hid
    · cases hp
  · rw [hdepth] at hdeep
    cases hdeep

/-- The folder is locked with everything in it, and then the file in it, through a mount of the folder. -/
theorem locks_exclusive_fails : Sound docsAndFiles ∧
      ∃ c, Interleave.Reach (system .sqlite id fun _ => false) free (start docsAndFiles) c ∧ ¬ NoConflict c.shared := by
  refine ⟨docsAndFiles_sound, ?_⟩
  let inner : ResourceLock :=
    ⟨2, "t", 1, .file 1, .resource, .exclusive, .webDav, some 7, none, some 3600, some "/a.txt"⟩
  have hrun : ((system .sqlite id fun _ => false).run free (start docsAndFiles)
      [(0, exclusiveLock none "/docs/" true "s"), (0, exclusiveLock (some 1) "/a.txt" false "t")]).map
        (fun c => (c.shared.now, c.shared.db.tree.files.rows, c.shared.db.locks.rows)) =
      some (0, docsAndFiles.db.tree.files.rows, [docsLock, inner]) := by
    decide
  obtain ⟨c, hc, hnow, hrest⟩ := map_pair_eq_some hrun
  obtain ⟨hfiles, hlocks⟩ := Prod.mk.inj hrest
  refine ⟨c, run_reach hc, fun hno => ?_⟩
  have hconf : Conflict c.shared.db.tree docsLock inner := by
    refine ⟨rfl, .inl rfl, .inl (.inr ⟨rfl, ?_⟩)⟩
    refine ⟨⟨1, some 7, none, some 1, "a.txt", 1, 0, "text/plain", 0, none⟩, 1, ?_, rfl, .refl⟩
    refine Table.get_eq_some_iff.mpr ⟨?_, rfl⟩
    rw [hfiles]
    exact mem_cons_self
  refine hno docsLock ?_ inner ?_ (by decide) ?_ ?_ hconf
  · simp [hlocks]
  · simp [hlocks]
  · rw [hnow]
    decide
  · rw [hnow]
    decide

end AsterDrive.Locks.Runs
