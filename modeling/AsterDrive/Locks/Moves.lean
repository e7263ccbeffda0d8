import AsterDrive.Locks.Enforcement

/-!
# Moves — what a rename or a move leaves to the locks

The three transactions of the product that hang folders and files somewhere else, seen from the lock
rows. None of them touches a row. They change what lies below what, but whoever moves something into a
collection is refused as long as a deep lock reaches that collection: `Moved.reach`, a lock that has not
expired covers nothing after the move that it did not cover before.
-/

namespace AsterDrive.Locks

open Db Files List Option Table

/-- The folders of every workspace are a forest. -/
def Forests (db : LockDb) : Prop := ∀ w, LiveForest w db.tree.folders

/-- The lock rows stayed, their roots are still there, forests are still forests, and no deep lock that
has not expired reaches further than before. -/
structure Moved (db db' : LockDb) (now : ℕ) : Prop where
  locks : db'.locks = db.locks
  workspaces : ∀ n w, db.workspaceOf n = some w → db'.workspaceOf n = some w
  roots : ∀ w r, RootIn db.tree w r → RootIn db'.tree w r
  forest : Forests db → Forests db'
  reach : Forests db → RootsOwned db → ∀ l ∈ db.locks.rows, l.expired now = false → l.depth = .infinity →
    ∀ r, Over db'.tree l.root r → Over db.tree l.root r

/-! ### Hanging rows under a target -/

section

variable {t t' : Tree} {S : ℕ → Prop} {target : Option ℕ} {a : ℕ} {r : LockRoot}

theorem over_hang (hS : ∀ i, S i → parentOf t'.folders i = target)
    (hrest : ∀ i, ¬ S i → parentOf t'.folders i = parentOf t.folders i)
    (hfree : ∀ k, target = some k → ∀ i, S i → ¬ Forest.AtOrAbove (parentOf t.folders) i k)
    (hfiles : ∀ i x', t'.files.get i = some x' → (∀ k, x'.folderId = some k → target = some k) ∨
      ∃ x, t.files.get i = some x ∧ x.folderId = x'.folderId)
    (hnot : ∀ k, target = some k → ¬ Forest.AtOrAbove (parentOf t.folders) a k)
    (h : Over t' (.folder a) r) : Over t (.folder a) r := by
  have habove : ∀ {b}, Forest.Above (parentOf t'.folders) a b → Forest.Above (parentOf t.folders) a b := by
    intro b hab
    rcases Forest.above_reparent hS hrest hfree hab with hold | ⟨k, s, hk, -, hak, -⟩
    · exact hold
    · exact absurd hak (hnot k hk)
  have hat : ∀ {b}, Forest.AtOrAbove (parentOf t'.folders) a b → Forest.AtOrAbove (parentOf t.folders) a b := by
    intro b hab
    rcases Forest.atOrAbove_iff.mp hab with rfl | hab
    · exact .refl
    · exact .of_above (habove hab)
  cases r with
  | workspaceRoot => exact h
  | folder b => exact habove h
  | file i =>
    obtain ⟨x', p, hx', hp, hap⟩ := h
    rcases hfiles i x' hx' with hmoved | ⟨x, hx, hsame⟩
    · exact absurd (hat hap) (hnot p (hmoved p hp))
    · exact ⟨x, p, hx, hsame.trans hp, hat hap⟩

/-- The parent of a folder after rows were hung under the target: it changed only for rows that did not
hang there before. -/
theorem parentOf_hang {f : Folders} {q : Folder → Bool} {g : Folder → Folder} {hg : ∀ r, (g r).id = r.id}
    (hset : ∀ r ∈ f.rows, q r → (g r).parentId = target) (i : ℕ) :
    (parentOf (f.updateRows q g hg) i = target ∧ ∃ r, f.get i = some r ∧ q r = true ∧ r.parentId ≠ target) ∨
      parentOf (f.updateRows q g hg) i = parentOf f i := by
  rw [parentOf_updateRows]
  cases hr : f.get i with
  | none => exact .inr (by simp [parentOf, Forest.parentIn, hr])
  | some r =>
    have hparent : parentOf f i = r.parentId := Forest.parentIn_of_lookup hr
    rw [hparent, bind_some]
    by_cases hq : q r = true
    · rw [if_pos hq, hset r (mem_of_get hr) hq]
      by_cases hsame : r.parentId = target
      · exact .inr hsame.symm
      · exact .inl ⟨rfl, r, rfl, hq, hsame⟩
    · rw [if_neg hq]
      exact .inr rfl

theorem folderId_hang {f : Db.Files} {q : File → Bool} {g : File → File} {hg : ∀ r, (g r).id = r.id}
    (hset : ∀ r ∈ f.rows, q r → (g r).folderId = target) {i : ℕ} {x' : File}
    (hx' : (f.updateRows q g hg).get i = some x') :
    (x'.folderId = target ∧ ∃ r ∈ f.rows, q r ∧ r.folderId ≠ target) ∨
      ∃ x, f.get i = some x ∧ x.folderId = x'.folderId := by
  rw [SerialTable.get_updateRows] at hx'
  obtain ⟨x, hx, rfl⟩ := map_eq_some_iff.mp hx'
  by_cases hq : q x = true
  · have hp := hset x (mem_of_get hx) hq
    by_cases hsame : x.folderId = target
    · exact .inr ⟨x, hx, by rw [if_pos hq, hp, hsame]⟩
    · exact .inl ⟨by rw [if_pos hq, hp], x, mem_of_get hx, hq, hsame⟩
  · exact .inr ⟨x, hx, by rw [if_neg hq]⟩

/-- Folders and files that hang under a target afterwards. Only if one of them did not hang there
before, the target must be out of the reach of the folder. -/
theorem over_updateRows {q : Folder → Bool} {g : Folder → Folder} {hg : ∀ r, (g r).id = r.id}
    {qf : File → Bool} {gf : File → File} {hgf : ∀ r, (gf r).id = r.id}
    (hfolders : ∀ r ∈ t.folders.rows, q r → (g r).parentId = target)
    (hfiles : ∀ r ∈ t.files.rows, qf r → (gf r).folderId = target)
    (hfree : ∀ k, target = some k → ∀ r ∈ t.folders.rows, q r → ¬ Forest.AtOrAbove (parentOf t.folders) r.id k)
    (hnot : ((∃ r ∈ t.folders.rows, q r ∧ r.parentId ≠ target) ∨ ∃ r ∈ t.files.rows, qf r ∧ r.folderId ≠ target) →
      ∀ k, target = some k → ¬ Forest.AtOrAbove (parentOf t.folders) a k)
    (h : Over { folders := t.folders.updateRows q g hg, files := t.files.updateRows qf gf hgf } (.folder a) r) :
    Over t (.folder a) r := by
  let S : ℕ → Prop := fun i => ∃ f, t.folders.get i = some f ∧ q f = true ∧ f.parentId ≠ target
  have hS : ∀ i, S i → parentOf (t.folders.updateRows q g hg) i = target := by
    rintro i ⟨f, hf, hq, -⟩
    rw [parentOf_updateRows, hf, bind_some, if_pos hq]
    exact hfolders f (mem_of_get hf) hq
  have hrest : ∀ i, ¬ S i → parentOf (t.folders.updateRows q g hg) i = parentOf t.folders i := by
    intro i hi
    rcases parentOf_hang hfolders i with ⟨-, hmoved⟩ | hsame
    · exact absurd hmoved hi
    · exact hsame
  by_cases hchange : (∃ r ∈ t.folders.rows, q r ∧ r.parentId ≠ target) ∨ ∃ r ∈ t.files.rows, qf r ∧ r.folderId ≠ target
  · refine over_hang hS hrest ?_ ?_ (hnot hchange) h
    · rintro k hk i ⟨f, hf, hq, -⟩
      rw [← key_of_get hf]
      exact hfree k hk f (mem_of_get hf) hq
    · intro i x' hx'
      rcases folderId_hang hfiles hx' with ⟨hp, -⟩ | hsame
      · exact .inl fun k hk => hp.symm.trans hk
      · exact .inr hsame
  · -- every row hangs where it hung before
    have hnone : ∀ i, ¬ S i := by
      rintro i ⟨f, hf, hq, hne⟩
      exact hchange (.inl ⟨f, mem_of_get hf, hq, hne⟩)
    have hfree' : ∀ k, (none : Option ℕ) = some k → ∀ i, False → ¬ Forest.AtOrAbove (parentOf t.folders) i k := by simp
    refine over_hang (S := fun _ => False) (by simp) (fun i _ => hrest i (hnone i)) hfree' ?_ (by simp) h
    intro i x' hx'
    rcases folderId_hang hfiles hx' with ⟨-, hx⟩ | hsame
    · exact absurd (.inr hx) hchange
    · exact .inr hsame

end

section

variable {db db' db1 : LockDb} {w : WorkspaceResourceScope} {now : ℕ}

theorem Moved.of_unmoved (hu : Unmoved db db') : Moved db db' now where
  locks := hu.locks
  workspaces := hu.frame.workspaces
  roots := by
    intro w r hr
    rw [hu.frame.tree]
    exact hr
  forest hforest := by
    unfold Forests
    rw [hu.frame.tree]
    exact hforest
  reach := by
    intro _ _ l _ _ _ r hr
    rwa [hu.frame.tree] at hr

variable {target : Option ℕ}

/-- Rows that hang under a target afterwards. Only if one of them did not hang there before, the
collection must be out of the reach of deep locks. -/
theorem Moved.of_hang {q : Folder → Bool} {g : Folder → Folder} {hg : ∀ r, (g r).id = r.id}
    {qf : File → Bool} {gf : File → File} {hgf : ∀ r, (gf r).id = r.id}
    (hu : Unmoved db db1)
    (hfolders : ∀ r ∈ db.tree.folders.rows, q r → (g r).parentId = target ∧
      (g r).workspace = r.workspace ∧ (g r).deletedAt = r.deletedAt ∧ r.workspace = some w)
    (hfiles : ∀ r ∈ db.tree.files.rows, qf r → (gf r).folderId = target ∧ (gf r).workspace = r.workspace)
    (htarget : ∀ k, target = some k → (∃ r ∈ db.tree.folders.rows, q r) →
      ∃ x, db.tree.folders.get k = some x ∧ x.ActiveIn w)
    (hfree : ∀ k, target = some k → ∀ r ∈ db.tree.folders.rows, q r →
      ¬ Forest.AtOrAbove (parentOf db.tree.folders) r.id k)
    (hnot : Forests db → RootsOwned db → ((∃ r ∈ db.tree.folders.rows, q r ∧ r.parentId ≠ target) ∨
        ∃ r ∈ db.tree.files.rows, qf r ∧ r.folderId ≠ target) →
      ∀ l ∈ db.locks.rows, l.expired now = false → l.depth = .infinity → ∀ a k, l.root = .folder a →
        target = some k → ¬ Forest.AtOrAbove (parentOf db.tree.folders) a k) :
    Moved db { db1 with
        tree := { folders := db.tree.folders.updateRows q g hg, files := db.tree.files.updateRows qf gf hgf } }
      now where
  locks := hu.locks
  workspaces := hu.frame.workspaces
  roots := by
    intro v r hr
    cases r with
    | workspaceRoot => trivial
    | folder i =>
      obtain ⟨f, hf, hv⟩ := hr
      refine ⟨if q f then g f else f, ?_, ?_⟩
      · show (db.tree.folders.updateRows q g hg).get i = _
        rw [SerialTable.get_updateRows, hf]
        rfl
      · split_ifs with hq
        · exact ((hfolders f (mem_of_get hf) hq).2.1).trans hv
        · exact hv
    | file i =>
      obtain ⟨f, hf, hv⟩ := hr
      refine ⟨if qf f then gf f else f, ?_, ?_⟩
      · show (db.tree.files.updateRows qf gf hgf).get i = _
        rw [SerialTable.get_updateRows, hf]
        rfl
      · split_ifs with hq
        · exact ((hfiles f (mem_of_get hf) hq).2).trans hv
        · exact hv
  forest := by
    intro hforest v
    have hset : ∀ r ∈ db.tree.folders.rows, q r → (g r).parentId = target ∧
        (g r).workspace = r.workspace ∧ (g r).deletedAt = r.deletedAt := by
      intro r hr hq
      obtain ⟨hp, hw, hd, -⟩ := hfolders r hr hq
      exact ⟨hp, hw, hd⟩
    refine (hforest v).reparent hset ?_ hfree
    · intro k hk r hr hq hact
      -- what is moved is of one workspace
      obtain rfl : v = w := some.inj (hact.1.symm.trans (hfolders r hr hq).2.2.2)
      exact htarget k hk ⟨r, hr, hq⟩
  reach := by
    intro hforest hown l hl hlive hdeep r hover
    cases hroot : l.root with
    | workspaceRoot | file i =>
      rw [hroot] at hover
      cases r <;> exact hover
    | folder a =>
      rw [hroot] at hover
      refine over_updateRows (fun x hx hq => (hfolders x hx hq).1) (fun x hx hq => (hfiles x hx hq).1) hfree ?_ hover
      exact fun hchange k hk => hnot hforest hown hchange l hl hlive hdeep a k hroot hk

/-! ### The checks of the transactions -/

/-- A collection that may be changed without credentials is out of the reach of deep locks. -/
theorem not_above_of_membership {k a : ℕ} {root : LockRoot} {above : Option ℕ} {l : ResourceLock} {x : Folder}
    (hforest : Forests db) (hown : RootsOwned db)
    (hm : membershipTarget db w (some k) = .ok (root, above))
    (hperm : Permits db { workspace := w, root, depth := .resource } above .none now)
    (hx : db.tree.folders.get k = some x) (hact : x.ActiveIn w)
    (hl : l ∈ db.locks.rows) (hlive : l.expired now = false) (hdeep : l.depth = .infinity)
    (hroot : l.root = .folder a) : ¬ Forest.AtOrAbove (parentOf db.tree.folders) a k := by
  intro hak
  -- the lock is in the workspace of the folder, for everything above the folder is
  obtain ⟨v, hv, hin⟩ := hown l hl
  rw [hroot] at hin
  obtain ⟨f, hf, hfv⟩ := hin
  obtain ⟨f', hf', hfact⟩ := (hforest w).active_above hx hact hak
  obtain rfl : f = f' := some.inj (hf.symm.trans hf')
  obtain rfl : v = w := some.inj (hfv.symm.trans hfact.1)
  rcases membershipTarget_ok hm with ⟨hnone, -⟩ | ⟨k', g, hk, rfl, hg, -, rfl⟩
  · cases hnone
  cases hk
  obtain rfl : x = g := some.inj (hx.symm.trans hg)
  have hcovers : Covers db.tree l (.folder k) := by
    rcases Forest.atOrAbove_iff.mp hak with rfl | habove
    · exact .inl hroot
    · rw [Covers, hroot]
      exact .inr ⟨hdeep, habove⟩
  have hsat := hperm l hl hv hlive ((lockCoversTarget_folder (hforest v) hx hact).mpr hcovers)
  simp at hsat

theorem enforceMembershipsOfMove_ok {fromParent toParent : Option ℕ}
    (h : enforceMembershipsOfMove db w fromParent toParent now = .ok db') :
    Unmoved db db' ∧ (toParent ≠ fromParent → ∃ root above, membershipTarget db w toParent = .ok (root, above) ∧
        Permits db { workspace := w, root, depth := .resource } above .none now) := by
  unfold enforceMembershipsOfMove at h
  split_ifs at h with hne
  · obtain ⟨db1, hfrom, hto⟩ := bind_ok h
    obtain ⟨hu, -⟩ := enforceMembership_ok hfrom
    obtain ⟨hu', root, above, hm, hperm⟩ := enforceMembership_ok hto
    rw [membershipTarget_unmoved hu] at hm
    exact ⟨hu.trans hu', fun _ => ⟨root, above, hm, hperm.congr hu⟩⟩
  · cases h
    exact ⟨.refl db, fun hne' => absurd hne' hne⟩

theorem writeTree_ok {indexRefuses : Tree → Bool} {t : Tree} {refusal : AsterError}
    (h : writeTree indexRefuses db t refusal = .ok db') : db' = { db with tree := t } := by
  unfold writeTree at h
  split_ifs at h
  exact (Except.ok.inj h).symm

variable {scope : WorkspaceStorageScope}

theorem checkFolderPlace_ok {normalizeName : String → String} {t : Tree} {id : ℕ} {chain : List Folder} {name : String}
    (h : checkFolderPlace normalizeName t scope id chain target name = .ok ()) :
    id ∉ chain.map Folder.id := by
  unfold checkFolderPlace at h
  split_ifs at h with hmem
  exact hmem

theorem lockFolderAccessOn_ok {t : Folders}
    (h : lockFolderAccessOn t scope target = .ok ()) (k : ℕ) (hk : target = some k) :
    ∃ x, t.get k = some x ∧ x.ActiveIn scope.resource := by
  subst hk
  obtain ⟨x, hx, hactive⟩ := bind_ok h
  exact ⟨x, lockFolderById_ok.mp hx, ensureActiveFolderScope_ok.mp hactive⟩

theorem enforceFileMove_ok {f : File}
    (hw : f.workspace = some w) (h : enforceFileMove db scope f target now = .ok db') :
    Unmoved db db' ∧ (target ≠ f.folderId →
      (∀ k, target = some k → ∃ x, db.tree.folders.get k = some x ∧ x.ActiveIn scope.resource) ∧
        ∃ root above, membershipTarget db w target = .ok (root, above) ∧
          Permits db { workspace := w, root, depth := .resource } above .none now) := by
  unfold enforceFileMove at h
  split_ifs at h with hne
  · obtain ⟨⟨⟩, haccess, h⟩ := bind_ok h
    obtain ⟨v, hv, hmembers⟩ := bind_ok h
    obtain rfl : v = w := some.inj ((workspaceOfFile_ok.mp hv).symm.trans hw)
    obtain ⟨hu, hmember⟩ := enforceMembershipsOfMove_ok hmembers
    exact ⟨hu, fun hne' => ⟨lockFolderAccessOn_ok haccess, hmember hne'⟩⟩
  · cases h
    exact ⟨.refl db, fun hne' => absurd hne' hne⟩

/-! ### The transactions -/

section Transactions

variable {normalizeName : String → String} {indexRefuses : Tree → Bool} {scope : WorkspaceStorageScope}

theorem updateFolderInScope_moved {id : ℕ} {name : Option String} {parentId : NullablePatch ℕ}
    (h : updateFolderInScope normalizeName indexRefuses db scope id name parentId now = .ok db') :
    Moved db db' now := by
  unfold updateFolderInScope at h
  split_ifs at h with hself
  obtain ⟨preview, hpreview, h⟩ := bind_ok h
  obtain ⟨⟨⟩, -, h⟩ := bind_ok h
  obtain ⟨⟨current, db1⟩, henforce, h⟩ := bind_ok h
  obtain ⟨⟨⟩, hactive, h⟩ := bind_ok h
  obtain ⟨chain, hchain, h⟩ := bind_ok h
  obtain ⟨workspace, hws, h⟩ := bind_ok h
  obtain ⟨db2, hmembers, h⟩ := bind_ok h
  obtain ⟨⟨⟩, hplace, hend⟩ := bind_ok h
  obtain ⟨hu1, hget, -⟩ := enforceFolderMutationOn_ok henforce
  rw [key_of_get (findFolderById_ok.mp hpreview)] at hget
  obtain ⟨hu2, hmember⟩ := enforceMembershipsOfMove_ok hmembers
  have hu := hu1.trans hu2
  have hact := ensureActiveFolderScope_ok.mp hactive
  obtain rfl : workspace = scope.resource := some.inj ((workspaceOfFolder_ok.mp hws).symm.trans hact.1)
  rw [hu1.frame.tree] at hchain
  have hout := checkFolderPlace_ok hplace
  dsimp only at hend
  split_ifs at hend with hsame
  · cases hend
    exact .of_unmoved hu
  obtain rfl := writeTree_ok hend
  have hrow : ∀ r ∈ db.tree.folders.rows, decide (r.id = id) = true → r = current := by
    intro r hr hid
    have hr := Table.get_of_mem hr
    rw [of_decide_eq_true hid] at hr
    exact some.inj (hr.symm.trans hget)
  rw [hu.frame.tree]
  have hfiles : db.tree.files = db.tree.files.updateRows (fun _ => false) (fun f => f) fun _ => rfl :=
    (SerialTable.updateRows_self _ fun _ => rfl).symm
  rw [hfiles]
  refine Moved.of_hang hu ?_ (by simp) (fun k hk _ => (chain_target hchain k hk).1) ?_ ?_
  · intro r hr hid
    obtain rfl := hrow r hr hid
    exact ⟨rfl, rfl, rfl, hact.1⟩
  · intro k hk r hr hid
    rw [of_decide_eq_true hid]
    exact (chain_target hchain k hk).2 id hout
  · rintro hforest hown (⟨r, hr, hid, hne⟩ | ⟨r, -, hfalse, -⟩) l hl hlive hdeep a k hroot hk
    · obtain rfl := hrow r hr hid
      obtain ⟨root, above, hm, hperm⟩ := hmember (Ne.symm hne)
      rw [membershipTarget_unmoved hu1, hk] at hm
      obtain ⟨x, hx, hxact⟩ := (chain_target hchain k hk).1
      exact not_above_of_membership hforest hown hm (hperm.congr hu1) hx hxact hl hlive hdeep hroot
    · cases hfalse

theorem updateFileInScope_moved {snapshot : File} {name : Option String} {folderId : NullablePatch ℕ}
    (h : updateFileInScope normalizeName indexRefuses db scope snapshot name folderId now = .ok db') :
    Moved db db' now := by
  obtain ⟨⟨⟩, hactive, h⟩ := bind_ok h
  obtain ⟨⟨f, db1⟩, henforce, h⟩ := bind_ok h
  obtain ⟨db2, hmove, hend⟩ := bind_ok h
  obtain ⟨hu1, hget, w, hw, hfw, -⟩ := enforceFileMutationOn_ok henforce
  obtain ⟨hu2, hmember⟩ := enforceFileMove_ok hfw hmove
  obtain rfl : scope.resource = w := some.inj ((workspace_of_ensureActive hactive).symm.trans hw)
  have hu := hu1.trans hu2
  dsimp only at hend
  split_ifs at hend with htaken hsame
  · cases hend
    exact .of_unmoved hu
  obtain rfl := writeTree_ok hend
  have hrow : ∀ r ∈ db.tree.files.rows, decide (r.id = snapshot.id) = true → r = f := by
    intro r hr hid
    have hr := Table.get_of_mem hr
    rw [of_decide_eq_true hid] at hr
    exact some.inj (hr.symm.trans hget)
  rw [hu.frame.tree]
  have hfolders : db.tree.folders = db.tree.folders.updateRows (fun _ => false) (fun f => f) fun _ => rfl :=
    (SerialTable.updateRows_self _ fun _ => rfl).symm
  rw [hfolders]
  have hset : ∀ r ∈ db.tree.files.rows, decide (r.id = snapshot.id) = true →
      (patchFile name folderId now r).folderId = folderId.apply f.folderId ∧
        (patchFile name folderId now r).workspace = r.workspace := by
    intro r hr hid
    obtain rfl := hrow r hr hid
    exact ⟨rfl, rfl⟩
  refine Moved.of_hang (w := scope.resource) hu (by simp) hset (by simp) (by simp) ?_
  · rintro hforest hown (⟨r, -, hfalse, -⟩ | ⟨r, hr, hid, hne⟩) l hl hlive hdeep a k hroot hk
    · cases hfalse
    · obtain rfl := hrow r hr hid
      obtain ⟨htarget, root, above, hm, hperm⟩ := hmember (Ne.symm hne)
      rw [membershipTarget_unmoved hu1, hk] at hm
      obtain ⟨x, hx, hxact⟩ := htarget k hk
      rw [hu1.frame.tree] at hx
      exact not_above_of_membership hforest hown hm (hperm.congr hu1) hx hxact hl hlive hdeep hroot

theorem enforceMemberships_ok {parents : List (Option ℕ)} (h : parents.foldlM
      (fun db parentId => enforceCollectionMembershipMutationOn db w parentId .none now) db = .ok db') :
    Unmoved db db' ∧ ∀ p ∈ parents, ∃ root above, membershipTarget db w p = .ok (root, above) ∧
      Permits db { workspace := w, root, depth := .resource } above .none now := by
  refine foldlM_ok (I := fun db1 => Unmoved db db1) ?_ (.refl db) h
  intro db1 p db2 _ hu hp
  obtain ⟨hu', root, above, hm, hperm⟩ := enforceMembership_ok hp
  rw [membershipTarget_unmoved hu] at hm
  exact ⟨hu.trans hu', root, above, hm, hperm.congr hu⟩

theorem revalidateBatchFile_unmoved {snapshot : File}
    (h : revalidateBatchFile scope now db snapshot = .ok db') : Unmoved db db' := by
  obtain ⟨⟨f, db1⟩, henforce, h⟩ := bind_ok h
  obtain ⟨⟨⟩, -, h⟩ := bind_ok h
  cases h
  exact (enforceFileMutationOn_ok henforce).1

/-- A folder of the batch is in the workspace, and no part of the chain that it is to hang under. -/
theorem revalidateBatchFolder_ok {chain : List Folder} {id : ℕ}
    (h : revalidateBatchFolder scope chain now db id = .ok db') :
    Unmoved db db' ∧ id ∉ chain.map Folder.id ∧
      ∃ f, db.tree.folders.get id = some f ∧ f.workspace = some scope.resource ∧
        Permits db { workspace := scope.resource, root := .folder id, depth := .infinity } f.parentId .none
          now := by
  obtain ⟨f, hf, h⟩ := bind_ok h
  obtain ⟨⟨⟩, hactive, h⟩ := bind_ok h
  obtain ⟨⟨current, db1⟩, henforce, hend⟩ := bind_ok h
  have hget := lockFolderById_ok.mp hf
  have hws := (ensureActiveFolderScope_ok.mp hactive).1
  obtain ⟨hu, hcur, w, hw, -, hperm⟩ := enforceFolderMutationOn_ok henforce
  obtain rfl : f.id = id := key_of_get hget
  obtain rfl : f = current := some.inj (hget.symm.trans hcur)
  obtain rfl : w = scope.resource := some.inj (hw.symm.trans hws)
  split_ifs at hend with hmem
  cases hend
  exact ⟨hu, hmem, f, hget, hws, hperm⟩

theorem revalidateBatchFolderMove_ok {ids : List ℕ} {target : Option ℕ}
    (h : revalidateBatchFolderMove db scope ids target now = .ok db') :
    Unmoved db db' ∧ ∀ id ∈ ids, (∀ k, target = some k → ¬ Forest.AtOrAbove (parentOf db.tree.folders) id k) ∧
      ∃ f, db.tree.folders.get id = some f ∧ f.workspace = some scope.resource ∧
        Permits db { workspace := scope.resource, root := .folder id, depth := .infinity } f.parentId .none
          now := by
  cases ids with
  | nil =>
    cases h
    exact ⟨.refl db, by simp⟩
  | cons id ids =>
    obtain ⟨chain, hchain, h⟩ := bind_ok h
    refine foldlM_ok (I := fun db1 => Unmoved db db1) ?_ (.refl db) h
    intro db1 id' db2 _ hu hid
    obtain ⟨hu', hout, f, hf, hw, hperm⟩ := revalidateBatchFolder_ok hid
    rw [hu.frame.tree] at hf
    exact ⟨hu.trans hu', fun k hk => (chain_target hchain k hk).2 id' hout, f, hf, hw, hperm.congr hu⟩

theorem batchMoveInScope_moved {files : List File} {folders : List Folder} {target : Option ℕ}
    (h : batchMoveInScope indexRefuses db scope files folders target now = .ok db') : Moved db db' now := by
  obtain ⟨⟨⟩, haccess, h⟩ := bind_ok h
  obtain ⟨db1, hmembers, h⟩ := bind_ok h
  obtain ⟨db2, hfiles, h⟩ := bind_ok h
  obtain ⟨db3, hfolders, h⟩ := bind_ok h
  obtain rfl := writeTree_ok h
  obtain ⟨hu1, hall⟩ := enforceMemberships_ok hmembers
  obtain ⟨hu2, -⟩ : Unmoved db1 db2 ∧ ∀ x ∈ files, True :=
    foldlM_ok (I := fun db' => Unmoved db1 db')
      (fun _ hu hx => ⟨hu.trans (revalidateBatchFile_unmoved hx), trivial⟩) (.refl db1) hfiles
  obtain ⟨hu3, hmoved⟩ := revalidateBatchFolderMove_ok hfolders
  have hu12 := hu1.trans hu2
  have hu := hu12.trans hu3
  rw [hu12.frame.tree] at hmoved
  rw [hu.frame.tree]
  have htarget := lockFolderAccessOn_ok haccess
  refine Moved.of_hang (w := scope.resource) hu ?_ (fun r _ _ => ⟨rfl, rfl⟩) (fun k hk _ => htarget k hk) ?_ ?_
  · intro r hr hid
    obtain ⟨-, f, hf, hw, -⟩ := hmoved r.id (of_decide_eq_true hid)
    obtain rfl : r = f := some.inj ((Table.get_of_mem hr).symm.trans hf)
    exact ⟨rfl, rfl, rfl, hw⟩
  · intro k hk r _ hid
    exact (hmoved r.id (of_decide_eq_true hid)).1 k hk
  · intro hforest hown _ l hl hlive hdeep a k hroot hk
    obtain ⟨root, above, hm, hperm⟩ := hall target (mem_dedup.mpr mem_cons_self)
    rw [hk] at hm
    obtain ⟨x, hx, hxact⟩ := htarget k hk
    exact not_above_of_membership hforest hown hm hperm hx hxact hl hlive hdeep hroot

end Transactions

end

end AsterDrive.Locks
