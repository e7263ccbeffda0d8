import AsterDrive.Files.Trash

/-!
# TrashRoundTrip — what a folder is like when it comes back out of the trash

A restore clears `deleted_at` on the whole subtree, so that it makes no difference whether the subtree went to the trash
just before (`restored_of_trashed`). Restoring is the identity if nothing of the subtree was in the trash; otherwise the
rows that were in the trash come back with the others, or their names keep the whole subtree in the trash
(`trash_round_trip`).
-/

namespace AsterDrive.Files.Trash

open Db Locks List SerialTable
open Concurrent (restoreRoot restoreMany parentRestoreTargetUnavailable restoredRow get_restored)

/-! ### The delete -/

section Delete

variable {purging : WorkspaceResourceScope → Bool} {db db' : LockDb} {scope : WorkspaceStorageScope}
  {w : WorkspaceResourceScope} {root : ℕ} {limits : Option TraversalLimits} {now : ℕ}

theorem admitMutationOn_ok (h : admitMutationOn purging db w = .ok db') : purging w = false ∧ db'.tree = db.tree := by
  unfold admitMutationOn at h
  split_ifs at h with hpurging
  cases h
  refine ⟨Bool.eq_false_of_not_eq_true hpurging, ?_⟩
  rcases hns : lockWorkspaceForMutationOn db w with ⟨ns, db1⟩
  exact (lockWorkspaceForMutationOn_unmoved hns).1.frame.tree

theorem collectLocked_ok {t : Tree} {n : ℕ} {found : List File × List ℕ}
    (h : collectLockedFolderTreeInScope t w root limits n = .ok found) :
    collectFolderTreeInScope t w root false limits = .ok found := by
  induction n with
  | zero => cases h
  | succ n ih =>
    obtain ⟨first, _, h⟩ := bind_ok h
    obtain ⟨⟨⟩, _, h⟩ := bind_ok h
    obtain ⟨confirmed, hconfirmed, h⟩ := bind_ok h
    split_ifs at h with hsame
    · cases h
      exact hconfirmed
    · exact ih h

theorem enforceBelow_tree {files : List File} {ids : List ℕ} (h : enforceBelow db files ids now = .ok db') :
    db'.tree = db.tree := by
  obtain ⟨db1, hfiles, hfolders⟩ := bind_ok h
  have hfirst : db1.tree = db.tree := by
    refine (foldlM_ok (I := fun x => x.tree = db.tree) (P := fun _ => True) ?_ rfl hfiles).1
    intro x f x' _ hx hstep
    obtain ⟨⟨_, _⟩, hfile, rfl⟩ := mapped_ok_iff.mp hstep
    exact ⟨(enforceFileMutationOn_ok hfile).1.frame.tree.trans hx, trivial⟩
  refine (foldlM_ok (I := fun x => x.tree = db.tree) (P := fun _ => True) ?_ hfirst hfolders).1
  intro x i x' _ hx hstep
  obtain ⟨d, _, hstep⟩ := bind_ok hstep
  obtain ⟨⟨_, _⟩, hfolder, rfl⟩ := mapped_ok_iff.mp hstep
  exact ⟨(enforceFolderMutationOn_ok hfolder).1.frame.tree.trans hx, trivial⟩

theorem lockDeletedRoot_tree {folder : Folder} {allowLockedRoot : Bool}
    (h : lockDeletedRoot db folder allowLockedRoot now = .ok db') : db'.tree = db.tree := by
  unfold lockDeletedRoot at h
  split_ifs at h with hallow
  · obtain ⟨_, _, rfl⟩ := mapped_ok_iff.mp h
    rfl
  · obtain ⟨⟨_, _⟩, henforce, rfl⟩ := mapped_ok_iff.mp h
    exact (enforceFolderMutationOn_ok henforce).1.frame.tree

/-- **What a delete has done.** -/
theorem deleteTreeInScopeOn_ok {allowLockedRoot : Bool}
    (h : deleteTreeInScopeOn purging db scope root limits now allowLockedRoot = .ok db') :
    ∃ files ids folder, purging scope.resource = false ∧ db.tree.folders.get root = some folder ∧
      folder.ActiveIn scope.resource ∧ collectFolderTreeInScope db.tree scope.resource root false limits = .ok (files, ids) ∧
      db'.tree = softDeleteMany (files.map File.id) ids now db.tree := by
  obtain ⟨locked, hlocked, hdelete⟩ := bind_ok h
  cases hdelete
  obtain ⟨db1, hadmit, h⟩ := bind_ok hlocked
  obtain ⟨folder, hfolder, h⟩ := bind_ok h
  obtain ⟨⟨⟩, hactive, h⟩ := bind_ok h
  obtain ⟨db2, henforce, h⟩ := bind_ok h
  obtain ⟨found, hfound, h⟩ := bind_ok h
  obtain ⟨db3, hbelow, h⟩ := bind_ok h
  cases h
  obtain ⟨hpurging, htree1⟩ := admitMutationOn_ok hadmit
  have htree2 := lockDeletedRoot_tree henforce
  have htree3 : db3.tree = db2.tree := by
    split_ifs at hbelow with hallow
    · rw [Except.ok.inj hbelow]
    · exact enforceBelow_tree hbelow
  have hcollected := collectLocked_ok hfound
  rw [htree2, htree1] at hcollected
  refine ⟨found.1, found.2, folder, hpurging, ?_, ensureActiveFolderScope_ok.mp hactive, hcollected, ?_⟩
  · rw [← htree1]
    exact findFolderById_ok.mp hfolder
  · show softDeleteMany _ _ now db3.tree = _
    rw [htree3, htree2, htree1]

end Delete

/-! ### Rows into the trash and out of it -/

section Rows

def trashFolder (folderIds : List ℕ) (now : ℕ) (f : Folder) : Folder :=
  if decide (f.id ∈ folderIds) then { f with deletedAt := some now } else f

def trashFile (fileIds : List ℕ) (now : ℕ) (f : File) : File :=
  if decide (f.id ∈ fileIds) then { f with deletedAt := some now } else f

variable {t : Tree} {ids fileIds folderIds : List ℕ} {now : ℕ}

theorem trashFolder_kept (f : Folder) : (trashFolder ids now f).id = f.id ∧ (trashFolder ids now f).workspace = f.workspace ∧
    (trashFolder ids now f).parentId = f.parentId := by
  unfold trashFolder
  split_ifs <;> exact ⟨rfl, rfl, rfl⟩

theorem trashFile_kept (f : File) : (trashFile ids now f).id = f.id ∧ (trashFile ids now f).workspace = f.workspace ∧
    (trashFile ids now f).folderId = f.folderId := by
  unfold trashFile
  split_ifs <;> exact ⟨rfl, rfl, rfl⟩

theorem folders_softDeleteMany :
    (softDeleteMany fileIds folderIds now t).folders.rows = t.folders.rows.map (trashFolder folderIds now) := rfl

theorem files_softDeleteMany : (softDeleteMany fileIds folderIds now t).files.rows = t.files.rows.map (trashFile fileIds now) :=
  rfl

theorem folder_cleared {f : Folder} (h : f.deletedAt = none) : { f with deletedAt := none } = f := by rw [← h]

theorem folderMatchesScope_congr {f g : Folder} {w : WorkspaceResourceScope} (h : f.workspace = g.workspace) :
    folderMatchesScope f w = folderMatchesScope g w := by
  rw [Bool.eq_iff_iff, folderMatchesScope_iff, folderMatchesScope_iff, h]

theorem fileMatchesScope_congr {f g : File} {w : WorkspaceResourceScope} (h : f.workspace = g.workspace) :
    fileMatchesScope f w = fileMatchesScope g w := by
  rw [Bool.eq_iff_iff, fileMatchesScope_iff, fileMatchesScope_iff, h]

end Rows

/-! ### Traversals -/

section Traversal

variable {t : Tree} {w : WorkspaceResourceScope} {incl : Bool} {root : ℕ} {limits : Option TraversalLimits}

/-- Without limits a traversal comes to its end: every level has folders that were not there. -/
theorem collectLevels_total {n depth : ℕ} {files : List File} {ids frontier : List ℕ} (hnodup : ids.Nodup)
    (hids : ∀ i ∈ ids, i ∈ root :: t.folders.rows.map Folder.id)
    (hfrontier : ∀ i ∈ frontier, i ∈ root :: t.folders.rows.map Folder.id)
    (hn : t.folders.rows.length + 1 < n + ids.length) :
    ∃ found, collectLevels t w incl none n files ids frontier depth = .ok found := by
  induction n generalizing files ids frontier depth with
  | zero =>
    have hle := (hnodup.subperm hids).length_le
    rw [length_cons, length_map] at hle
    omega
  | succ n ih =>
    unfold collectLevels
    have hmem : ∀ i ∈ frontier.dedup.filter fun id => id ∉ ids, i ∈ frontier ∧ i ∉ ids := by
      intro i hi
      obtain ⟨hi, hnot⟩ := mem_filter.mp hi
      exact ⟨mem_dedup.mp hi, of_decide_eq_true hnot⟩
    by_cases hlevel : (frontier.dedup.filter fun id => id ∉ ids) = []
    · rw [if_pos hlevel]
      exact ⟨_, rfl⟩
    · rw [if_neg hlevel]
      have hpos : 0 < (frontier.dedup.filter fun id => id ∉ ids).length := length_pos_iff.mpr hlevel
      have hnodup' : (ids ++ frontier.dedup.filter fun id => id ∉ ids).Nodup := by
        refine nodup_append.mpr ⟨hnodup, (nodup_dedup _).filter _, ?_⟩
        rintro i hi j hj rfl
        exact (hmem i hj).2 hi
      have hids' : ∀ i ∈ ids ++ frontier.dedup.filter fun id => id ∉ ids, i ∈ root :: t.folders.rows.map Folder.id := by
        intro i hi
        rcases mem_append.mp hi with hi | hi
        · exact hids i hi
        · exact hfrontier i (hmem i hi).1
      have hchildren : ∀ i ∈ childrenInParents t.folders w incl (frontier.dedup.filter fun id => id ∉ ids),
          i ∈ root :: t.folders.rows.map Folder.id := by
        intro i hi
        obtain ⟨f, _, hf, _⟩ := mem_childrenInParents.mp hi
        rw [← Table.key_of_get hf]
        exact mem_cons_of_mem _ (mem_map_of_mem (Table.mem_of_get hf))
      obtain ⟨found, hfound⟩ := ih hnodup' hids' hchildren (by
        rw [length_append]
        omega)
      exact ⟨found, bind_ok_iff.mpr ⟨(), rfl, bind_ok_iff.mpr ⟨(), rfl, bind_ok_iff.mpr ⟨(), rfl, hfound⟩⟩⟩⟩

theorem collectFolderTreeInScope_total : ∃ found, collectFolderTreeInScope t w root incl none = .ok found := by
  refine @collectLevels_total t w incl root _ _ _ _ _ nodup_nil (fun i hi => by cases hi) (fun i hi => ?_) ?_
  · rw [mem_singleton.mp hi]
    exact mem_cons_self
  · rw [length_nil]
    omega

/-- A file that lies in the subtree. -/
def FileBelow (t : Tree) (w : WorkspaceResourceScope) (root : ℕ) (f : File) : Prop :=
  f.workspace = some w ∧ ∃ p, f.folderId = some p ∧ InSubtree t.folders w true root p

/-- Nothing of the subtree is in the trash. -/
structure Untrashed (t : Tree) (w : WorkspaceResourceScope) (root : ℕ) : Prop where
  folders : ∀ f ∈ t.folders.rows, InSubtree t.folders w true root f.id → f.deletedAt = none
  files : ∀ f ∈ t.files.rows, FileBelow t w root f → f.deletedAt = none

variable {fileIds folderIds : List ℕ} {now : ℕ}

theorem childrenInParents_softDelete {level : List ℕ} (h : Untrashed t w root)
    (hlevel : ∀ p ∈ level, InSubtree t.folders w true root p) :
    childrenInParents (softDeleteMany fileIds folderIds now t).folders w true level =
      childrenInParents t.folders w false level := by
  unfold childrenInParents
  rw [folders_softDeleteMany, filter_map, map_map]
  have hid : (Folder.id ∘ trashFolder folderIds now) = Folder.id := funext fun f => (trashFolder_kept f).1
  congr 1
  refine filter_congr fun f hf => ?_
  obtain ⟨_, hworkspace, hparent⟩ := @trashFolder_kept folderIds now f
  dsimp only [Function.comp]
  rw [folderMatchesScope_congr hworkspace, hparent]
  cases hscope : folderMatchesScope f w with
  | false => rfl
  | true =>
    by_cases hin : ∃ p ∈ level, f.parentId = some p
    · obtain ⟨p, hp, hfp⟩ := hin
      have hsub : InSubtree t.folders w true root f.id :=
        .child (Table.get_of_mem hf) ⟨folderMatchesScope_iff.mp hscope, .inl rfl⟩ hfp (hlevel p hp)
      rw [h.folders f hf hsub]
      rfl
    · simp [hin]

theorem levelFiles_softDelete {level : List ℕ} (h : Untrashed t w root)
    (hlevel : ∀ p ∈ level, InSubtree t.folders w true root p) :
    (levelFiles (softDeleteMany fileIds folderIds now t).files w true level).length =
      (levelFiles t.files w false level).length := by
  unfold levelFiles
  rw [files_softDeleteMany, filter_map, length_map]
  congr 1
  refine filter_congr fun f hf => ?_
  obtain ⟨_, hworkspace, hparent⟩ := @trashFile_kept fileIds now f
  dsimp only [Function.comp]
  rw [fileMatchesScope_congr hworkspace, hparent]
  cases hscope : fileMatchesScope f w with
  | false => rfl
  | true =>
    by_cases hin : ∃ p ∈ level, f.folderId = some p
    · obtain ⟨p, hp, hfp⟩ := hin
      rw [h.files f hf ⟨fileMatchesScope_iff.mp hscope, p, hfp, hlevel p hp⟩]
      rfl
    · simp [hin]

/-- **Both traversals go the same way** if nothing was in the trash: the one that takes the live rows before the delete,
and the one that takes all rows after it. -/
theorem collectLevels_softDelete (h : Untrashed t w root) {n depth : ℕ} {files files' : List File} {ids frontier : List ℕ}
    {found : List File × List ℕ} (hfiles : files'.length = files.length)
    (hfrontier : ∀ i ∈ frontier, InSubtree t.folders w true root i)
    (hok : collectLevels t w false limits n files ids frontier depth = .ok found) :
    ∃ found', collectLevels (softDeleteMany fileIds folderIds now t) w true limits n files' ids frontier depth = .ok found' := by
  induction n generalizing files files' ids frontier depth with
  | zero => cases hok
  | succ n ih =>
    unfold collectLevels at hok ⊢
    dsimp only at hok ⊢
    have hlevel : ∀ i ∈ frontier.dedup.filter fun id => id ∉ ids, InSubtree t.folders w true root i :=
      fun i hi => hfrontier i (mem_dedup.mp (mem_filter.mp hi).1)
    generalize (frontier.dedup.filter fun id => id ∉ ids) = level at hok hlevel ⊢
    split_ifs at hok ⊢ with hnil
    · exact ⟨_, rfl⟩
    · obtain ⟨⟨⟩, hshape, hok⟩ := bind_ok hok
      obtain ⟨⟨⟩, hresources, hok⟩ := bind_ok hok
      obtain ⟨⟨⟩, hmore, hok⟩ := bind_ok hok
      have hfound : (levelFiles (softDeleteMany fileIds folderIds now t).files w true level).length =
          (levelFiles t.files w false level).length := levelFiles_softDelete h hlevel
      obtain ⟨found', hfound'⟩ := @ih (depth + 1) (files ++ levelFiles t.files w false level)
        (files' ++ levelFiles (softDeleteMany fileIds folderIds now t).files w true level) (ids ++ level)
        (childrenInParents t.folders w false level) (by
          rw [length_append, length_append, hfiles, hfound]) (fun i hi => by
          obtain ⟨f, p, hf, htaken, hp, hfp⟩ := mem_childrenInParents.mp hi
          exact .child hf ⟨htaken.1, .inl rfl⟩ hfp (hlevel p hp)) hok
      refine ⟨found', bind_ok_iff.mpr ⟨(), hshape, bind_ok_iff.mpr ⟨(), ?_, bind_ok_iff.mpr ⟨(), ?_, ?_⟩⟩⟩⟩
      · rw [hfiles]
        exact hresources
      · rw [hfiles, hfound]
        exact hmore
      · rw [childrenInParents_softDelete h hlevel]
        exact hfound'

end Traversal

/-! ### The restore -/

section Restore

variable {t : Tree} {w : WorkspaceResourceScope} {root : ℕ} {fileIds folderIds : List ℕ} {now : ℕ}

/-- The tree after the restore of a subtree whose root stays where it is. -/
def revivedTree (root : ℕ) (files : List File) (ids : List ℕ) (restoreToRoot : Bool) (t : Tree) : Tree :=
  restoreMany (files.map File.id) (ids.filter (· ≠ root)) (restoreRoot root restoreToRoot t)

variable {files : List File} {ids : List ℕ}

/-- **Trashing first makes no difference** to a restore that takes in what was trashed. -/
theorem restored_of_trashed {b : Bool} (hroot : root ∈ ids)
    (hfiles : ∀ i ∈ fileIds, i ∈ files.map File.id) (hfolders : ∀ i ∈ folderIds, i ∈ ids) :
    revivedTree root files ids b (softDeleteMany fileIds folderIds now t) = revivedTree root files ids b t := by
  unfold revivedTree restoreMany restoreRoot
  congr 1
  · refine eq_of_rows ?_ rfl
    show (((softDeleteMany fileIds folderIds now t).folders.rows.map _).map _ : List Folder) = (t.folders.rows.map _).map _
    rw [folders_softDeleteMany, map_map, map_map, map_map]
    refine map_congr_left fun f _ => ?_
    unfold trashFolder
    by_cases hdeleted : f.id ∈ folderIds
    · have hin := hfolders f.id hdeleted
      by_cases hf : f.id = root
      · subst hf
        simp [hdeleted]
      · simp [hdeleted, hf, hin]
    · simp [hdeleted]
  · refine eq_of_rows ?_ rfl
    show ((softDeleteMany fileIds folderIds now t).files.rows.map _ : List File) = t.files.rows.map _
    rw [files_softDeleteMany, map_map]
    refine map_congr_left fun f _ => ?_
    dsimp only [Function.comp]
    unfold trashFile
    by_cases hdeleted : f.id ∈ fileIds
    · have hin := hfiles f.id hdeleted
      simp only [hdeleted, hin, decide_true, if_true]
    · simp only [hdeleted, decide_false, Bool.false_eq_true, if_false]

variable {folder : Folder}

theorem restoreRoot_of_live (hget : t.folders.get root = some folder) (hlive : folder.deletedAt = none) :
    restoreRoot root false t = t := by
  unfold restoreRoot
  have hrows : ∀ f ∈ t.folders.rows, f.id = root → f = folder := by
    rintro f hf rfl
    exact Option.some.inj ((Table.get_of_mem hf).symm.trans hget)
  have hsame : t.folders.updateRows (fun f => f.id = root)
      (fun f => { f with deletedAt := none, parentId := if false then none else f.parentId }) (fun _ => rfl) = t.folders := by
    refine eq_of_rows ?_ rfl
    show t.folders.rows.map _ = t.folders.rows
    refine (map_congr_left fun f hf => ?_).trans (map_id _)
    by_cases hid : f.id = root
    · obtain rfl := hrows f hf hid
      rw [if_pos (decide_eq_true hid)]
      exact folder_cleared hlive
    · rw [if_neg (by simpa using hid)]
      rfl
  rw [hsame]

theorem InSubtree.softDelete {c : ℕ} :
    InSubtree (softDeleteMany fileIds folderIds now t).folders w true root c ↔ InSubtree t.folders w true root c := by
  have hget : ∀ c, (softDeleteMany fileIds folderIds now t).folders.get c = (t.folders.get c).map (trashFolder folderIds now) :=
    fun c => get_updateRows _ _ _ _ c
  constructor
  · intro h
    induction h with
    | root => exact .root
    | child hf htaken hp _ ih =>
      rw [hget] at hf
      obtain ⟨f0, hf0, rfl⟩ := Option.map_eq_some_iff.mp hf
      obtain ⟨_, hworkspace, hparent⟩ := @trashFolder_kept folderIds now f0
      exact .child hf0 ⟨hworkspace.symm.trans htaken.1, .inl rfl⟩ (hparent.symm.trans hp) ih
  · intro h
    induction h with
    | root => exact .root
    | @child c p f hf htaken hp _ ih =>
      obtain ⟨_, hworkspace, hparent⟩ := @trashFolder_kept folderIds now f
      refine .child ?_ ⟨hworkspace.trans htaken.1, .inl rfl⟩ (hparent.trans hp) ih
      rw [hget, hf]
      rfl

/-- What the traversal after the delete finds, in terms of the tree before it. -/
structure Found (t : Tree) (w : WorkspaceResourceScope) (root : ℕ) (files : List File) (ids : List ℕ) : Prop where
  folders : ∀ c, c ∈ ids ↔ InSubtree t.folders w true root c
  files : ∀ f ∈ t.files.rows, f.id ∈ files.map File.id ↔ FileBelow t w root f

theorem found_softDelete {limits : Option TraversalLimits}
    (h : collectFolderTreeInScope (softDeleteMany fileIds folderIds now t) w root true limits = .ok (files, ids)) :
    Found t w root files ids := by
  have hfrontier := collectFolderTreeInScope_ok h
  have hids : ∀ c, c ∈ ids ↔ InSubtree t.folders w true root c :=
    fun c => (Frontier.mem_ids hfrontier c).trans InSubtree.softDelete
  refine ⟨hids, fun f hf => ?_⟩
  rw [mem_map]
  constructor
  · rintro ⟨g, hg, hid⟩
    obtain ⟨hgrow, ⟨hgw, _⟩, p, hp, hfolder⟩ := (hfrontier.files g).mp hg
    obtain ⟨f0, hf0, rfl⟩ := mem_map.mp hgrow
    obtain ⟨hsame, hworkspace, hparent⟩ := @trashFile_kept fileIds now f0
    obtain rfl : f0 = f := Table.eq_of_key hf0 hf (hsame.symm.trans hid)
    exact ⟨hworkspace.symm.trans hgw, p, hparent.symm.trans hfolder, (hids p).mp hp⟩
  · rintro ⟨hfw, p, hp, hsub⟩
    obtain ⟨hsame, hworkspace, hparent⟩ := @trashFile_kept fileIds now f
    have hrow : trashFile fileIds now f ∈ (softDeleteMany fileIds folderIds now t).files.rows := by
      exact mem_map_of_mem hf
    exact ⟨_, (hfrontier.files _).mpr ⟨hrow, ⟨hworkspace.trans hfw, .inl rfl⟩, p, (hids p).mpr hsub, hparent.trans hp⟩, hsame⟩

/-- A folder that is live after the restore. -/
def FolderRevived (t : Tree) (w : WorkspaceResourceScope) (root : ℕ) (f : Folder) : Prop :=
  f.deletedAt = none ∨ InSubtree t.folders w true root f.id

def FileRevived (t : Tree) (w : WorkspaceResourceScope) (root : ℕ) (f : File) : Prop :=
  f.deletedAt = none ∨ FileBelow t w root f

/-- The live rows of `t'` are those of `t` and the rows of the subtree that were in the trash, each with its own parent
and name. -/
structure Revived (t : Tree) (w : WorkspaceResourceScope) (root : ℕ) (t' : Tree) : Prop where
  folders : ∀ g, (g ∈ t'.folders.rows ∧ g.deletedAt = none) ↔
    ∃ f ∈ t.folders.rows, FolderRevived t w root f ∧ g = { f with deletedAt := none }
  files : ∀ g, (g ∈ t'.files.rows ∧ g.deletedAt = none) ↔
    ∃ f ∈ t.files.rows, FileRevived t w root f ∧ g = { f with deletedAt := none }

theorem revivedTree_revived (h : Found t w root files ids)
    (hget : t.folders.get root = some folder) (hlive : folder.deletedAt = none) :
    Revived t w root (revivedTree root files ids false t) := by
  unfold revivedTree
  rw [restoreRoot_of_live hget hlive]
  have hroot : ∀ f ∈ t.folders.rows, f.id = root → f.deletedAt = none := by
    rintro f hf rfl
    rw [Option.some.inj ((Table.get_of_mem hf).symm.trans hget)]
    exact hlive
  have hfolder : ∀ f ∈ t.folders.rows, FolderRevived t w root f ↔ f.deletedAt = none ∨ f.id ∈ ids.filter (· ≠ root) := by
    intro f hf
    rw [mem_filter, h.folders, decide_eq_true_eq]
    constructor
    · rintro (hnone | hsub)
      · exact .inl hnone
      · by_cases hid : f.id = root
        · exact .inl (hroot f hf hid)
        · exact .inr ⟨hsub, hid⟩
    · exact Or.imp_right And.left
  constructor
  · intro g
    constructor
    · rintro ⟨hg, hnone⟩
      obtain ⟨f, hf, rfl⟩ := mem_updateRows.mp hg
      refine ⟨f, hf, ?_⟩
      rw [hfolder f hf]
      split_ifs at hnone ⊢ with hin
      · exact ⟨.inr (of_decide_eq_true hin), rfl⟩
      · exact ⟨.inl hnone, by rw [← hnone]⟩
    · rintro ⟨f, hf, halive, rfl⟩
      refine ⟨mem_updateRows.mpr ⟨f, hf, ?_⟩, rfl⟩
      split_ifs with hin
      · rfl
      · rcases (hfolder f hf).mp halive with hnone | hids
        · rw [← hnone]
        · exact absurd (decide_eq_true hids) hin
  · intro g
    constructor
    · rintro ⟨hg, hnone⟩
      obtain ⟨f, hf, rfl⟩ := mem_updateRows.mp hg
      refine ⟨f, hf, ?_⟩
      unfold FileRevived
      rw [← h.files f hf]
      split_ifs at hnone ⊢ with hin
      · exact ⟨.inr (of_decide_eq_true hin), rfl⟩
      · exact ⟨.inl hnone, by rw [← hnone]⟩
    · rintro ⟨f, hf, halive, rfl⟩
      refine ⟨mem_updateRows.mpr ⟨f, hf, ?_⟩, rfl⟩
      unfold FileRevived at halive
      rw [← h.files f hf] at halive
      split_ifs with hin
      · rfl
      · rcases halive with hnone | hids
        · rw [← hnone]
        · exact absurd (decide_eq_true hids) hin

theorem revivedTree_of_untrashed (h : Found t w root files ids)
    (huntrashed : Untrashed t w root) (hget : t.folders.get root = some folder) (hlive : folder.deletedAt = none) :
    revivedTree root files ids false t = t := by
  unfold revivedTree
  rw [restoreRoot_of_live hget hlive]
  unfold restoreMany
  have hfolders : t.folders.updateRows (fun f => f.id ∈ ids.filter (· ≠ root)) (fun f => { f with deletedAt := none })
      (fun _ => rfl) = t.folders := by
    refine eq_of_rows ?_ rfl
    show t.folders.rows.map _ = t.folders.rows
    refine (map_congr_left fun f hf => ?_).trans (map_id _)
    dsimp only [id]
    split_ifs with hin
    · have hids := (mem_filter.mp (of_decide_eq_true hin)).1
      rw [← huntrashed.folders f hf ((h.folders _).mp hids)]
    · rfl
  have hfiles : t.files.updateRows (fun f => f.id ∈ files.map File.id) (fun f => { f with deletedAt := none })
      (fun _ => rfl) = t.files := by
    refine eq_of_rows ?_ rfl
    show t.files.rows.map _ = t.files.rows
    refine (map_congr_left fun f hf => ?_).trans (map_id _)
    dsimp only [id]
    split_ifs with hin
    · rw [← huntrashed.files f hf ((h.files f hf).mp (of_decide_eq_true hin))]
    · rfl
  rw [hfolders, hfiles]

end Restore

section Commands

variable {purging : WorkspaceResourceScope → Bool} {access : Except AsterError Unit} {db db' : LockDb}
  {scope : WorkspaceStorageScope} {root : ℕ} {limits : Option TraversalLimits} {now : ℕ}

theorem restoreFolderInScope_ok (h : restoreFolderInScope purging access db scope root limits = .ok db') :
    ∃ folder files ids, db.tree.folders.get root = some folder ∧
      collectFolderTreeInScope db.tree scope.resource root true limits = .ok (files, ids) ∧
      db'.tree = revivedTree root files ids (restoresToRoot db.tree.folders scope folder) db.tree ∧ NamesDistinct db'.tree := by
  obtain ⟨⟨⟩, _, h⟩ := bind_ok h
  obtain ⟨db1, hadmit, h⟩ := bind_ok h
  obtain ⟨folder, hfolder, h⟩ := bind_ok h
  obtain ⟨⟨⟩, _, h⟩ := bind_ok h
  split_ifs at h with htrashed
  obtain ⟨found, hfound, h⟩ := bind_ok h
  have htree := (admitMutationOn_ok hadmit).2
  rw [htree] at hfolder hfound h
  dsimp only at h
  split_ifs at h with hroot hfiles hfolders
  cases h
  exact ⟨folder, found.1, found.2, findFolderById_ok.mp hfolder, hfound, rfl, ⟨hfolders, hfiles⟩⟩

theorem live_of_folderName {f : Folder} (h : (Folder.liveName f).isSome = true) : f.deletedAt = none := by
  by_contra hne
  unfold Folder.liveName at h
  rw [if_neg hne] at h
  cases h

theorem live_of_fileName {f : File} (h : f.liveName.isSome = true) : f.deletedAt = none := by
  by_contra hne
  unfold File.liveName at h
  rw [if_neg hne] at h
  cases h

variable {t : Tree}

/-- Distinct names after the last statement of a restore were distinct after its first one. -/
theorem names_of_restoreMany {fileIds folderIds : List ℕ}
    (h : FolderNamesDistinct (restoreMany fileIds folderIds t).folders) : FolderNamesDistinct t.folders := by
  have hkept : ∀ f ∈ t.folders.rows, (Folder.liveName f).isSome = true → f ∈ (restoreMany fileIds folderIds t).folders.rows := by
    intro f hf hname
    have hlive := live_of_folderName hname
    refine mem_updateRows.mpr ⟨f, hf, ?_⟩
    split_ifs
    · exact folder_cleared hlive
    · rfl
  intro f hf g hg hname hsame
  have hname' := hname
  rw [hsame] at hname'
  exact h f (hkept f hf hname) g (hkept g hg hname') hname hsame

theorem restoreFolderInScope_succeeds {folder : Folder} {files : List File} {ids : List ℕ}
    (hpurging : purging scope.resource = false) (hget : db.tree.folders.get root = some folder)
    (hworkspace : folder.workspace = some scope.resource) (htrashed : folder.deletedAt.isSome = true)
    (hfound : collectFolderTreeInScope db.tree scope.resource root true limits = .ok (files, ids))
    (hnames : NamesDistinct (revivedTree root files ids (restoresToRoot db.tree.folders scope folder) db.tree)) :
    ∃ db', restoreFolderInScope purging (.ok ()) db scope root limits = .ok db' ∧
      db'.tree = revivedTree root files ids (restoresToRoot db.tree.folders scope folder) db.tree := by
  have htree : (lockWorkspaceForMutationOn db scope.resource).2.tree = db.tree :=
    (lockWorkspaceForMutationOn_unmoved (Prod.mk.eta (p := lockWorkspaceForMutationOn db scope.resource)).symm).1.frame.tree
  refine ⟨{ (lockWorkspaceForMutationOn db scope.resource).2 with
    tree := revivedTree root files ids (restoresToRoot db.tree.folders scope folder) db.tree }, ?_, rfl⟩
  refine bind_ok_iff.mpr ⟨(), rfl, bind_ok_iff.mpr ⟨(lockWorkspaceForMutationOn db scope.resource).2, ?_, ?_⟩⟩
  · unfold admitMutationOn
    rw [hpurging]
    rfl
  rw [htree]
  refine bind_ok_iff.mpr ⟨folder, findFolderById_ok.mpr hget,
    bind_ok_iff.mpr ⟨(), ensureFolderResourceScope_ok.mpr hworkspace, ?_⟩⟩
  rw [if_neg (by
    rw [Option.isNone_iff_eq_none]
    intro hnone
    rw [hnone] at htrashed
    cases htrashed)]
  refine bind_ok_iff.mpr ⟨(files, ids), hfound, ?_⟩
  obtain ⟨hfolders, hfiles⟩ := hnames
  unfold revivedTree at hfolders hfiles
  rw [if_neg (not_not.mpr (names_of_restoreMany hfolders)), if_neg (not_not.mpr hfiles), if_neg (not_not.mpr hfolders)]
  rfl

/-- The rows that are live after the restore have distinct names. -/
structure RevivedNames (t : Tree) (w : WorkspaceResourceScope) (root : ℕ) : Prop where
  folders : ∀ f ∈ t.folders.rows, ∀ g ∈ t.folders.rows, FolderRevived t w root f → FolderRevived t w root g →
    (Folder.liveName { f with deletedAt := none }).isSome = true →
    Folder.liveName { f with deletedAt := none } = Folder.liveName { g with deletedAt := none } → f.id = g.id
  files : ∀ f ∈ t.files.rows, ∀ g ∈ t.files.rows, FileRevived t w root f → FileRevived t w root g →
    (File.liveName { f with deletedAt := none }).isSome = true →
    File.liveName { f with deletedAt := none } = File.liveName { g with deletedAt := none } → f.id = g.id

theorem Revived.names {t' : Tree} {w : WorkspaceResourceScope} (h : Revived t w root t') :
    NamesDistinct t' ↔ RevivedNames t w root := by
  constructor
  · intro hnames
    constructor
    · intro f hf g hg halive halive' hname hsame
      obtain ⟨hrow, _⟩ := (h.folders _).mpr ⟨f, hf, halive, rfl⟩
      obtain ⟨hrow', _⟩ := (h.folders _).mpr ⟨g, hg, halive', rfl⟩
      have hids := hnames.folders _ hrow _ hrow' hname hsame
      exact hids
    · intro f hf g hg halive halive' hname hsame
      obtain ⟨hrow, _⟩ := (h.files _).mpr ⟨f, hf, halive, rfl⟩
      obtain ⟨hrow', _⟩ := (h.files _).mpr ⟨g, hg, halive', rfl⟩
      have hids := hnames.files _ hrow _ hrow' hname hsame
      exact hids
  · intro hnames
    constructor
    · intro f hf g hg hname hsame
      have hname' := hname
      rw [hsame] at hname'
      obtain ⟨f0, hf0, halive, rfl⟩ := (h.folders f).mp ⟨hf, live_of_folderName hname⟩
      obtain ⟨g0, hg0, halive', rfl⟩ := (h.folders g).mp ⟨hg, live_of_folderName hname'⟩
      exact hnames.folders f0 hf0 g0 hg0 halive halive' hname hsame
    · intro f hf g hg hname hsame
      have hname' := hname
      rw [hsame] at hname'
      obtain ⟨f0, hf0, halive, rfl⟩ := (h.files f).mp ⟨hf, live_of_fileName hname⟩
      obtain ⟨g0, hg0, halive', rfl⟩ := (h.files g).mp ⟨hg, live_of_fileName hname'⟩
      exact hnames.files f0 hf0 g0 hg0 halive halive' hname hsame

/-- The same rows are live, with the same parents and names. -/
structure SameLive (t t' : Tree) : Prop where
  folders : ∀ f, (f ∈ t'.folders.rows ∧ f.deletedAt = none) ↔ (f ∈ t.folders.rows ∧ f.deletedAt = none)
  files : ∀ f, (f ∈ t'.files.rows ∧ f.deletedAt = none) ↔ (f ∈ t.files.rows ∧ f.deletedAt = none)

theorem SameLive.untrashed {t' : Tree} {w : WorkspaceResourceScope} (h : Revived t w root t') (hsame : SameLive t t') :
    Untrashed t w root := by
  constructor
  · intro f hf hsub
    have hrow := (hsame.folders _).mp ((h.folders _).mpr ⟨f, hf, .inr hsub, rfl⟩)
    rw [Table.eq_of_key hf hrow.1 rfl]
  · intro f hf hbelow
    have hrow := (hsame.files _).mp ((h.files _).mpr ⟨f, hf, .inr hbelow, rfl⟩)
    rw [Table.eq_of_key hf hrow.1 rfl]

/-- The folder stays where it is: at the root of the workspace, or in a live folder of it that does not go with it. -/
def ParentStays (t : Tree) (w : WorkspaceResourceScope) (root : ℕ) : Prop :=
  ∀ folder p, t.folders.get root = some folder → folder.parentId = some p →
    ∃ g, t.folders.get p = some g ∧ g.ActiveIn w ∧ ¬ InSubtree t.folders w true root p

/-- **A folder into the trash and back.** It is the identity exactly if nothing of the subtree was in the trash. Otherwise
the rows that were in the trash come back with the others; with no limits that is so exactly if names stay distinct. -/
theorem trash_round_trip {allowLockedRoot : Bool} (hparent : ParentStays db.tree scope.resource root)
    (hnames : NamesDistinct db.tree)
    (hdelete : deleteTreeInScopeOn purging db scope root limits now allowLockedRoot = .ok db') :
    ((∃ x, restoreFolderInScope purging (.ok ()) db' scope root limits = .ok x ∧ SameLive db.tree x.tree) ↔
        Untrashed db.tree scope.resource root) ∧
      (∀ limits' x, restoreFolderInScope purging (.ok ()) db' scope root limits' = .ok x →
        Revived db.tree scope.resource root x.tree) ∧
      ((∃ x, restoreFolderInScope purging (.ok ()) db' scope root none = .ok x) ↔
        RevivedNames db.tree scope.resource root) := by
  obtain ⟨files, ids, folder, hpurging, hget, hactive, hcollect, htree⟩ := deleteTreeInScopeOn_ok hdelete
  have hfrontier := collectFolderTreeInScope_ok hcollect
  have hids : ∀ c, c ∈ ids ↔ InSubtree db.tree.folders scope.resource false root c := Frontier.mem_ids hfrontier
  -- the root is in the trash, and its parent is not
  have hget' : db'.tree.folders.get root = some (trashFolder ids now folder) := by
    rw [htree]
    show (db.tree.folders.updateRows _ _ _).get root = _
    rw [get_updateRows, hget]
    rfl
  have htrashed : (trashFolder ids now folder).deletedAt.isSome = true := by
    unfold trashFolder
    rw [Table.key_of_get hget, if_pos (decide_eq_true ((hids root).mpr .root))]
    rfl
  have hworkspace : (trashFolder ids now folder).workspace = some scope.resource :=
    (@trashFolder_kept ids now folder).2.1.trans hactive.1
  have hstays : restoresToRoot db'.tree.folders scope (trashFolder ids now folder) = false := by
    unfold restoresToRoot
    rw [(@trashFolder_kept ids now folder).2.2]
    cases hp : folder.parentId with
    | none => rfl
    | some p =>
      obtain ⟨g, hg, hgactive, hgnot⟩ := hparent folder p hget hp
      have hgp : db'.tree.folders.get p = some g := by
        rw [htree]
        show (db.tree.folders.updateRows _ _ _).get p = _
        rw [get_updateRows, hg, Option.map_some, if_neg]
        intro hin
        rw [Table.key_of_get hg] at hin
        exact hgnot ((hids p).mp (of_decide_eq_true hin)).mono
      show parentRestoreTargetUnavailable (db'.tree.folders.get p) scope = false
      rw [hgp]
      unfold parentRestoreTargetUnavailable
      dsimp only
      rw [ensureFolderResourceScope_ok.mpr hgactive.1, hgactive.2]
      rfl
  -- what a restore makes of the tree, in terms of the tree before the delete
  have hrevived : ∀ {limits' : Option TraversalLimits} {files' : List File} {ids' : List ℕ},
      collectFolderTreeInScope db'.tree scope.resource root true limits' = .ok (files', ids') →
      Found db.tree scope.resource root files' ids' ∧
        revivedTree root files' ids' (restoresToRoot db'.tree.folders scope (trashFolder ids now folder)) db'.tree =
          revivedTree root files' ids' false db.tree := by
    intro limits' files' ids' hcollect'
    rw [htree] at hcollect'
    have hfound := found_softDelete hcollect'
    refine ⟨hfound, ?_⟩
    rw [hstays, htree]
    refine restored_of_trashed ((hfound.folders root).mpr .root) (fun i hi => ?_) fun i hi => ?_
    · obtain ⟨f, hf, rfl⟩ := mem_map.mp hi
      obtain ⟨hrow, ⟨hfw, _⟩, p, hp, hfolder⟩ := (hfrontier.files f).mp hf
      exact (hfound.files f hrow).mpr ⟨hfw, p, hfolder, ((hids p).mp hp).mono⟩
    · exact (hfound.folders i).mpr ((hids i).mp hi).mono
  have hany : ∀ limits' x, restoreFolderInScope purging (.ok ()) db' scope root limits' = .ok x →
      Revived db.tree scope.resource root x.tree ∧ NamesDistinct x.tree := by
    intro limits' x hx
    obtain ⟨folder', files', ids', hfolder', hcollect', hxtree, hxnames⟩ := restoreFolderInScope_ok hx
    obtain rfl : folder' = trashFolder ids now folder := Option.some.inj (hfolder'.symm.trans hget')
    obtain ⟨hfound, hsame⟩ := hrevived hcollect'
    refine ⟨?_, hxnames⟩
    rw [hxtree, hsame]
    exact revivedTree_revived hfound hget hactive.2
  refine ⟨⟨?_, fun huntrashed => ?_⟩, fun limits' x hx => (hany limits' x hx).1, ⟨?_, fun hrevivedNames => ?_⟩⟩
  · rintro ⟨x, hx, hsame⟩
    exact hsame.untrashed (hany limits x hx).1
  · obtain ⟨⟨files', ids'⟩, hcollect'⟩ : ∃ found',
        collectFolderTreeInScope db'.tree scope.resource root true limits = .ok found' := by
      have hrows : (softDeleteMany (files.map File.id) ids now db.tree).folders.rows.length = db.tree.folders.rows.length := by
        rw [folders_softDeleteMany, length_map]
      rw [htree]
      unfold collectFolderTreeInScope at hcollect ⊢
      rw [hrows]
      refine collectLevels_softDelete huntrashed rfl (fun i hi => ?_) hcollect
      rw [mem_singleton.mp hi]
      exact .root
    obtain ⟨hfound, hsame⟩ := hrevived hcollect'
    have hback := revivedTree_of_untrashed hfound huntrashed hget hactive.2
    obtain ⟨x, hx, hxtree⟩ := restoreFolderInScope_succeeds hpurging hget' hworkspace htrashed hcollect' (by
      rw [hsame, hback]
      exact hnames)
    rw [hsame, hback] at hxtree
    refine ⟨x, hx, ?_⟩
    rw [hxtree]
    exact ⟨fun f => Iff.rfl, fun f => Iff.rfl⟩
  · rintro ⟨x, hx⟩
    obtain ⟨hx, hxnames⟩ := hany none x hx
    exact hx.names.mp hxnames
  · obtain ⟨⟨files', ids'⟩, hcollect'⟩ := @collectFolderTreeInScope_total db'.tree scope.resource true root
    obtain ⟨hfound, hsame⟩ := hrevived hcollect'
    obtain ⟨x, hx, _⟩ := restoreFolderInScope_succeeds hpurging hget' hworkspace htrashed hcollect' (by
      rw [hsame]
      exact (revivedTree_revived hfound hget hactive.2).names.mpr hrevivedNames)
    exact ⟨x, hx⟩

end Commands

/-! ### A folder with files in the trash -/

def shelfFile (id : ℕ) (name : String) (deletedAt : Option ℕ) : File :=
  ⟨id, some 7, none, some 1, name, 1, 0, "text/plain", 0, deletedAt⟩

/-- A folder with three files, the last two in the trash or not, and no lock on any of them. -/
def shelf (second third : Option ℕ) (name : String) : LockDb where
  namespaces := { rows := [], unique := by decide, next := 1, below := by decide, oneEach := by decide }
  locks := .empty
  owned := fun _ h => absurd h not_mem_nil
  tree :=
    { folders := { rows := [⟨1, some 7, none, none, "a", none⟩], unique := by decide, next := 2, below := by decide }
      files :=
        { rows := [shelfFile 1 "x" none, shelfFile 2 name second, shelfFile 3 "z" third]
          unique := by
            show ([1, 2, 3] : List ℕ).Nodup
            decide
          next := 4
          below := by simp [shelfFile] } }
  users := [7]
  teams := []

/-- Nobody empties the trash. -/
def quiet (_ : WorkspaceResourceScope) : Bool := false

/-- Into the trash at 5. -/
def trashShelf (db : LockDb) : Except AsterError LockDb := deleteTreeInScopeOn quiet db (.personal 7) 1 none 5 false

theorem trash_round_trip_shelf :
    ParentStays (shelf none (some 3) "y").tree (.personal 7) 1 ∧ NamesDistinct (shelf none (some 3) "y").tree ∧
      ∃ x, trashShelf (shelf none (some 3) "y") = .ok x ∧
        ((∃ y, restoreFolderInScope quiet (.ok ()) x (.personal 7) 1 none = .ok y ∧
            SameLive (shelf none (some 3) "y").tree y.tree) ↔ Untrashed (shelf none (some 3) "y").tree (.personal 7) 1) ∧
          (∀ limits' y, restoreFolderInScope quiet (.ok ()) x (.personal 7) 1 limits' = .ok y →
            Revived (shelf none (some 3) "y").tree (.personal 7) 1 y.tree) ∧
          ((∃ y, restoreFolderInScope quiet (.ok ()) x (.personal 7) 1 none = .ok y) ↔
            RevivedNames (shelf none (some 3) "y").tree (.personal 7) 1) := by
  have hparent : ParentStays (shelf none (some 3) "y").tree (.personal 7) 1 := by
    intro folder p hget hp
    obtain rfl : _ = folder := Option.some.inj hget
    cases hp
  have hnames : NamesDistinct (shelf none (some 3) "y").tree := ⟨by decide, by decide⟩
  have hok : (trashShelf (shelf none (some 3) "y")).toOption.isSome = true := by decide
  cases hx : trashShelf (shelf none (some 3) "y") with
  | error e =>
    rw [hx] at hok
    cases hok
  | ok x => exact ⟨hparent, hnames, x, rfl, trash_round_trip hparent hnames hx⟩

/-- The live files after trashing the folder and restoring it. -/
def liveFilesAfter (db : LockDb) : Except AsterError (List ℕ) :=
  (trashShelf db >>= fun x => restoreFolderInScope quiet (.ok ()) x (.personal 7) 1 none).map fun y =>
    (y.tree.files.rows.filter fun f => f.deletedAt.isNone).map File.id

/-- A file that was in the trash comes back with the folder; one with the name of a live file keeps it there. -/
theorem round_trip_lost : (¬ ∀ (db : LockDb) (scope : WorkspaceStorageScope) (root now : ℕ),
      (∃ f, db.tree.folders.get root = some f ∧ f.ActiveIn scope.resource) → NamesDistinct db.tree →
      ∃ x y, deleteTreeInScopeOn quiet db scope root none now false = .ok x ∧
        restoreFolderInScope quiet (.ok ()) x scope root none = .ok y ∧ SameLive db.tree y.tree) ∧
      liveFilesAfter (shelf none (some 3) "y") = .ok [1, 2, 3] ∧
      liveFilesAfter (shelf (some 3) none "x") =
        .error (validationError "one or more files already exist in their original folders") := by
  refine ⟨fun hall => ?_, by decide, by decide⟩
  have hlost : liveFilesAfter (shelf (some 3) none "x") =
      .error (validationError "one or more files already exist in their original folders") := by decide
  obtain ⟨x, y, hx, hy, _⟩ := hall (shelf (some 3) none "x") (.personal 7) 1 5 ⟨_, rfl, rfl, rfl⟩
    ⟨by decide, by decide⟩
  unfold liveFilesAfter trashShelf at hlost
  rw [hx] at hlost
  change (restoreFolderInScope quiet (.ok ()) x (.personal 7) 1 none).map _ = _ at hlost
  have hy' : restoreFolderInScope quiet (.ok ()) x (.personal 7) 1 none = .ok y := hy
  rw [hy'] at hlost
  cases hlost

end AsterDrive.Files.Trash
