import AsterDrive.Files.Tree
import AsterDrive.Lib.Keyset
import AsterDrive.Lib.Levels

/-!
# FolderForest — the folders and files below given folders

`collect_folder_forest_in_resource_scope`, with the pages in which the files of a level are read. A round sorts its
frontier and drops what it has seen, so it looks at one level of the breadth-first search; the roots are taken as they are
given. With limits, the files of a level are read in one page of one row more than what is left.
-/

namespace AsterDrive.Files

open Db Levels List

/-! ### The files of a level -/

def folderTreeFilePageSize : ℕ := 512

/-- `find_by_folders_after_id`, for a team and with deleted rows. -/
def findByFoldersAfterId (t : Db.Files) (scope : WorkspaceResourceScope) (includeDeleted : Bool) (folderIds : List ℕ)
    (afterId : Option ℕ) (limit : ℕ) : List File :=
  if folderIds = [] ∨ limit = 0 then [] else Keyset.page File.id afterId limit (levelFiles t scope includeDeleted folderIds)

/-- The loop over the pages; a page takes a file, so there are not more of them than files. -/
def loadPages (t : Db.Files) (scope : WorkspaceResourceScope) (includeDeleted : Bool) (frontier : List ℕ) :
    ℕ → Option ℕ → List File → List File
  | 0, _, files => files
  | rounds + 1, afterId, files =>
    let page := findByFoldersAfterId t scope includeDeleted frontier afterId folderTreeFilePageSize
    match page.getLast? with
    | none => files
    | some last =>
      if page.length < folderTreeFilePageSize then files ++ page
      else loadPages t scope includeDeleted frontier rounds (some last.id) (files ++ page)

/-- The folders of the level are counted by then, so one row more than what is left is no overflow. -/
def loadLevelFiles (t : Db.Files) (scope : WorkspaceResourceScope) (frontier : List ℕ) (includeDeleted : Bool)
    (limits : Option TraversalLimits) (folderCount fileCount : ℕ) : Except AsterError (List File) :=
  match limits with
  | none => .ok (loadPages t scope includeDeleted frontier (t.rows.length + 1) none [])
  | some l =>
    if l.maximumResources < folderCount + fileCount then .error folderTreeLimitError
    else
      let remaining := l.maximumResources - (folderCount + fileCount)
      let page := findByFoldersAfterId t scope includeDeleted frontier none (remaining + 1)
      if remaining < page.length then .error folderTreeLimitError else .ok page

def extendLevelFiles (limits : Option TraversalLimits) (files : List File) (folderCount : ℕ) (levelFiles : List File) :
    Except AsterError (List File) := do
  checkFolderTreeResourceLimits limits folderCount files.length levelFiles.length
  pure (files ++ levelFiles)

/-! ### The rounds -/

def collectRounds (t : Tree) (scope : WorkspaceResourceScope) (includeDeleted : Bool) (limits : Option TraversalLimits) :
    ℕ → List File → List ℕ → List ℕ → ℕ → Except AsterError (List File × List ℕ)
  -- a round that goes on adds a folder, so the rounds do not run out
  | 0, _, _, _, _ => .error (internalError "folder tree is deeper than the table")
  | rounds + 1, files, folderIds, frontier, depth =>
    let level := fresh folderIds frontier
    if level = [] then .ok (files, folderIds)
    else do
      checkFolderTreeFrontierLimits limits level.length depth
      checkFolderTreeResourceLimits limits folderIds.length files.length level.length
      let found ← loadLevelFiles t.files scope level includeDeleted limits (folderIds ++ level).length files.length
      let files ← extendLevelFiles limits files (folderIds ++ level).length found
      collectRounds t scope includeDeleted limits rounds files (folderIds ++ level)
        (childrenInParents t.folders scope includeDeleted level) (depth + 1)

def collectFolderForest (t : Tree) (scope : WorkspaceResourceScope) (rootFolderIds : List ℕ) (includeDeleted : Bool)
    (limits : Option TraversalLimits) : Except AsterError (List File × List ℕ) :=
  if rootFolderIds = [] then .ok ([], [])
  else
    collectRounds t scope includeDeleted limits (rootFolderIds.length + t.folders.rows.length + 1) [] [] rootFolderIds 0

/-! ### What is to be found -/

/-- A child that the traversal takes up. -/
def ChildOf (t : Tree) (scope : WorkspaceResourceScope) (includeDeleted : Bool) (p c : ℕ) : Prop :=
  ∃ f, t.folders.get c = some f ∧ f.TakenIn scope includeDeleted ∧ f.parentId = some p

/-- A file in a folder that is reached. -/
def FileReached (t : Tree) (scope : WorkspaceResourceScope) (includeDeleted : Bool) (roots : List ℕ) (f : File) : Prop :=
  f ∈ t.files.rows ∧ File.TakenIn f scope includeDeleted ∧
    ∃ p, Reached (ChildOf t scope includeDeleted) roots p ∧ f.folderId = some p

/-- Every level is at most so wide, none is deeper, and folders and files together are not more. -/
def WithinLimits (t : Tree) (scope : WorkspaceResourceScope) (includeDeleted : Bool) (roots : List ℕ) :
    Option TraversalLimits → Prop
  | none => True
  | some l =>
    (∀ n, Set.ncard {x | Level (ChildOf t scope includeDeleted) roots n x} ≤ l.maximumFrontier) ∧
      (∀ n x, Level (ChildOf t scope includeDeleted) roots n x → n ≤ l.maximumDepth) ∧
      Set.ncard {x | Reached (ChildOf t scope includeDeleted) roots x} +
        Set.ncard {f | FileReached t scope includeDeleted roots f} ≤ l.maximumResources

section Forest

variable {t : Tree} {scope : WorkspaceResourceScope} {incl : Bool} {limits : Option TraversalLimits}
variable {roots level ids frontier : List ℕ} {files : List File} {n : ℕ}

/-! ### Pages -/

theorem nodup_levelFiles : ((levelFiles t.files scope incl level).map File.id).Nodup :=
  t.files.unique.sublist (List.filter_sublist.map _)

theorem loadPages_eq (hlevel : level ≠ []) {rounds : ℕ} {afterId : Option ℕ} {read : List File}
    (hrounds : (Keyset.behind File.id afterId (levelFiles t.files scope incl level)).length < rounds) :
    loadPages t.files scope incl level rounds afterId read =
      read ++ Keyset.behind File.id afterId (levelFiles t.files scope incl level) := by
  induction rounds generalizing afterId read with
  | zero => omega
  | succ rounds ih =>
    have hpage : findByFoldersAfterId t.files scope incl level afterId folderTreeFilePageSize =
        Keyset.page File.id afterId folderTreeFilePageSize (levelFiles t.files scope incl level) := by
      unfold findByFoldersAfterId
      rw [if_neg (by simp [hlevel, folderTreeFilePageSize])]
    unfold loadPages
    dsimp only
    rw [hpage]
    split
    · rename_i hnone
      have hempty : Keyset.behind File.id afterId (levelFiles t.files scope incl level) = [] := by
        rcases take_eq_nil_iff.mp (getLast?_eq_none_iff.mp hnone) with hzero | hnil
        · cases hzero
        · exact hnil
      rw [hempty, append_nil]
    · rename_i last hlast
      have hsplit := Keyset.behind_split nodup_levelFiles hlast
      split_ifs with hshort
      · have hall : Keyset.page File.id afterId folderTreeFilePageSize (levelFiles t.files scope incl level) =
            Keyset.behind File.id afterId (levelFiles t.files scope incl level) := by
          unfold Keyset.page at hshort ⊢
          rw [length_take] at hshort
          exact take_of_length_le (by omega)
        rw [hall]
      · have hlength := congrArg List.length hsplit
        have hpos : 0 < folderTreeFilePageSize := by decide
        rw [length_append] at hlength
        rw [ih (by omega), append_assoc, ← hsplit]

/-- The files of a level, by id. -/
def levelFound (t : Tree) (scope : WorkspaceResourceScope) (incl : Bool) (level : List ℕ) : List File :=
  Keyset.behind File.id none (levelFiles t.files scope incl level)

theorem mem_levelFound {f : File} : f ∈ levelFound t scope incl level ↔
    f ∈ t.files.rows ∧ File.TakenIn f scope incl ∧ ∃ p ∈ level, f.folderId = some p := by
  unfold levelFound
  rw [Keyset.mem_behind_none, mem_levelFiles]

theorem loadLevelFiles_none (hlevel : level ≠ []) {folderCount fileCount : ℕ} :
    loadLevelFiles t.files scope level incl none folderCount fileCount = .ok (levelFound t scope incl level) := by
  have hle : (levelFound t scope incl level).length ≤ t.files.rows.length := by
    unfold levelFound Keyset.behind
    rw [length_insertionSort]
    exact (length_filter_le _ _).trans (length_filter_le _ _)
  unfold loadLevelFiles
  unfold levelFound at hle
  rw [loadPages_eq hlevel (by omega), nil_append]
  rfl

theorem loadLevelFiles_some (hlevel : level ≠ []) {l : TraversalLimits} {folderCount fileCount : ℕ} :
    loadLevelFiles t.files scope level incl (some l) folderCount fileCount =
      if l.maximumResources < folderCount + fileCount + (levelFound t scope incl level).length
      then .error folderTreeLimitError
      else .ok (levelFound t scope incl level) := by
  have hpage : findByFoldersAfterId t.files scope incl level none (l.maximumResources - (folderCount + fileCount) + 1) =
      (levelFound t scope incl level).take (l.maximumResources - (folderCount + fileCount) + 1) := by
    unfold findByFoldersAfterId
    rw [if_neg (by simp [hlevel])]
    rfl
  unfold loadLevelFiles
  dsimp only
  rw [hpage, length_take]
  by_cases hused : l.maximumResources < folderCount + fileCount
  · rw [if_pos hused, if_pos (by omega)]
  · by_cases hmany : l.maximumResources < folderCount + fileCount + (levelFound t scope incl level).length
    · rw [if_neg hused, if_pos hmany, if_pos (by omega)]
    · rw [if_neg hused, if_neg hmany, if_neg (by omega), take_of_length_le (by omega)]

/-! ### One round -/

/-- The limits allow a level of this width and depth, and this many folders and files. -/
def Fits (width depth total : ℕ) : Option TraversalLimits → Prop
  | none => True
  | some l => width ≤ l.maximumFrontier ∧ depth ≤ l.maximumDepth ∧ total ≤ l.maximumResources

theorem checkFolderTreeFrontierLimits_some {l : TraversalLimits} {width depth : ℕ} :
    checkFolderTreeFrontierLimits (some l) width depth =
      if l.maximumDepth < depth ∨ l.maximumFrontier < width then .error folderTreeShapeLimitError else .ok () := rfl

theorem checkFolderTreeResourceLimits_some {l : TraversalLimits} {folders files additional : ℕ} :
    checkFolderTreeResourceLimits (some l) folders files additional =
      if l.maximumResources < folders + files + additional then .error folderTreeLimitError else .ok () := rfl

variable {rounds : ℕ} (hlevel : fresh ids frontier ≠ [])
include hlevel

theorem collectRounds_fits (hfits : Fits (fresh ids frontier).length n
      ((ids ++ fresh ids frontier).length + (files ++ levelFound t scope incl (fresh ids frontier)).length) limits) :
    collectRounds t scope incl limits (rounds + 1) files ids frontier n =
      collectRounds t scope incl limits rounds (files ++ levelFound t scope incl (fresh ids frontier))
        (ids ++ fresh ids frontier) (childrenInParents t.folders scope incl (fresh ids frontier)) (n + 1) := by
  simp only [collectRounds]
  rw [if_neg hlevel]
  cases limits with
  | none =>
    rw [loadLevelFiles_none hlevel]
    rfl
  | some l =>
    obtain ⟨hwidth, hdepth, htotal⟩ := hfits
    have hids : (ids ++ fresh ids frontier).length = ids.length + (fresh ids frontier).length := length_append
    have hfiles : (files ++ levelFound t scope incl (fresh ids frontier)).length =
      files.length + (levelFound t scope incl (fresh ids frontier)).length := length_append
    have hextend : extendLevelFiles (some l) files (ids ++ fresh ids frontier).length
        (levelFound t scope incl (fresh ids frontier)) =
          .ok (files ++ levelFound t scope incl (fresh ids frontier)) := by
      unfold extendLevelFiles
      rw [checkFolderTreeResourceLimits_some, if_neg (by omega)]
      rfl
    rw [checkFolderTreeFrontierLimits_some, if_neg (by omega), checkFolderTreeResourceLimits_some, if_neg (by omega),
      loadLevelFiles_some hlevel, if_neg (by omega)]
    show (extendLevelFiles (some l) files _ (levelFound t scope incl (fresh ids frontier)) >>= _) = _
    rw [hextend]
    rfl

theorem collectRounds_fails (hfits : ¬ Fits (fresh ids frontier).length n
      ((ids ++ fresh ids frontier).length + (files ++ levelFound t scope incl (fresh ids frontier)).length) limits) :
    ∃ e, collectRounds t scope incl limits (rounds + 1) files ids frontier n = .error e := by
  simp only [collectRounds]
  rw [if_neg hlevel]
  cases limits with
  | none => exact absurd trivial hfits
  | some l =>
    rw [checkFolderTreeFrontierLimits_some, checkFolderTreeResourceLimits_some, loadLevelFiles_some hlevel]
    by_cases hshape : l.maximumDepth < n ∨ l.maximumFrontier < (fresh ids frontier).length
    · rw [if_pos hshape]
      exact ⟨_, rfl⟩
    · by_cases hroom : l.maximumResources < ids.length + files.length + (fresh ids frontier).length
      · rw [if_neg hshape, if_pos hroom]
        exact ⟨_, rfl⟩
      · have hmany : l.maximumResources < (ids ++ fresh ids frontier).length + files.length +
            (levelFound t scope incl (fresh ids frontier)).length := by
          by_contra hfew
          refine hfits ⟨by omega, by omega, ?_⟩
          have hfiles : (files ++ levelFound t scope incl (fresh ids frontier)).length =
            files.length + (levelFound t scope incl (fresh ids frontier)).length := length_append
          omega
        rw [if_neg hshape, if_neg hroom, if_pos hmany]
        exact ⟨_, rfl⟩

omit hlevel

/-! ### Whole searches -/

theorem childrenInParents_iff {c : ℕ} :
    c ∈ childrenInParents t.folders scope incl level ↔ ∃ p ∈ level, ChildOf t scope incl p c := by
  rw [mem_childrenInParents]
  constructor
  · rintro ⟨f, p, hf, htaken, hp, hparent⟩
    exact ⟨p, hp, f, hf, htaken, hparent⟩
  · rintro ⟨p, hp, f, hf, htaken, hparent⟩
    exact ⟨f, p, hf, htaken, hp, hparent⟩

/-- The files that were found lie in the folders that were seen. -/
structure Gathered (t : Tree) (scope : WorkspaceResourceScope) (incl : Bool) (roots : List ℕ) (n : ℕ)
    (files : List File) (ids frontier : List ℕ) : Prop where
  explored : Explored (ChildOf t scope incl) roots n ids frontier
  once : files.Nodup
  files : ∀ f, f ∈ files ↔ f ∈ t.files.rows ∧ File.TakenIn f scope incl ∧ ∃ p ∈ ids, f.folderId = some p

theorem Gathered.start : Gathered t scope incl roots 0 [] [] roots where
  explored := .start
  once := nodup_nil
  files f := by simp

theorem Gathered.next (h : Gathered t scope incl roots n files ids frontier) :
    Gathered t scope incl roots (n + 1) (files ++ levelFound t scope incl (fresh ids frontier))
      (ids ++ fresh ids frontier) (childrenInParents t.folders scope incl (fresh ids frontier)) where
  explored := h.explored.next fun _ => childrenInParents_iff
  once := by
    refine nodup_append.mpr ⟨h.once, Keyset.nodup_behind nodup_levelFiles, ?_⟩
    rintro f hf g hg rfl
    obtain ⟨-, -, p, hp, hfolder⟩ := (h.files f).mp hf
    obtain ⟨-, -, q, hq, hfolder'⟩ := (mem_levelFound).mp hg
    obtain rfl := Option.some.inj (hfolder.symm.trans hfolder')
    exact Explored.disjoint p hp hq
  files f := by
    rw [mem_append, h.files, mem_levelFound]
    constructor
    · rintro (⟨hf, htaken, p, hp, hfolder⟩ | ⟨hf, htaken, p, hp, hfolder⟩)
      · exact ⟨hf, htaken, p, mem_append_left _ hp, hfolder⟩
      · exact ⟨hf, htaken, p, mem_append_right _ hp, hfolder⟩
    · rintro ⟨hf, htaken, p, hp, hfolder⟩
      rcases mem_append.mp hp with hp | hp
      · exact .inl ⟨hf, htaken, p, hp, hfolder⟩
      · exact .inr ⟨hf, htaken, p, hp, hfolder⟩

theorem reached_world {x : ℕ} (h : Reached (ChildOf t scope incl) roots x) :
    x ∈ roots ++ t.folders.rows.map Folder.id := by
  obtain ⟨n, hn⟩ := h
  cases hn with
  | root hroot => exact mem_append_left _ hroot
  | next _ hedge =>
    obtain ⟨f, hf, -, -⟩ := hedge
    rw [← Table.key_of_get hf]
    exact mem_append_right _ (mem_map_of_mem (Table.mem_of_get hf))

section

variable (h : Gathered t scope incl roots n files ids frontier)
include h

theorem Gathered.folders_le : ids.length ≤ Set.ncard {x | Reached (ChildOf t scope incl) roots x} := by
  have hfinite : Set.Finite {x | Reached (ChildOf t scope incl) roots x} :=
    (finite_toSet _).subset fun x hx => reached_world hx
  rw [← ncard_of_nodup h.explored.nodup (s := {x | x ∈ ids}) fun _ => Iff.rfl]
  exact Set.ncard_le_ncard (fun x hx => h.explored.reached hx) hfinite

theorem Gathered.files_le : files.length ≤ Set.ncard {f | FileReached t scope incl roots f} := by
  have hfinite : Set.Finite {f | FileReached t scope incl roots f} :=
    (finite_toSet t.files.rows).subset fun f hf => hf.1
  rw [← ncard_of_nodup h.once (s := {f | f ∈ files}) fun _ => Iff.rfl]
  refine Set.ncard_le_ncard (fun f hf => ?_) hfinite
  obtain ⟨hrow, htaken, p, hp, hfolder⟩ := (h.files f).mp hf
  exact ⟨hrow, htaken, p, h.explored.reached hp, hfolder⟩

theorem Gathered.width : Set.ncard {x | Level (ChildOf t scope incl) roots n x} = (fresh ids frontier).length :=
  ncard_of_nodup nodup_fresh fun _ => h.explored.mem_fresh

end

/-- The levels that were taken and what was found are within the limits. -/
def Kept (t : Tree) (scope : WorkspaceResourceScope) (incl : Bool) (roots : List ℕ) (n : ℕ) (total : ℕ) :
    Option TraversalLimits → Prop
  | none => True
  | some l =>
    (∀ m, m < n → Set.ncard {x | Level (ChildOf t scope incl) roots m x} ≤ l.maximumFrontier) ∧
      (∀ m x, m < n → Level (ChildOf t scope incl) roots m x → m ≤ l.maximumDepth) ∧ total ≤ l.maximumResources

section

variable (h : Gathered t scope incl roots n files ids frontier)
include h

theorem Kept.next (hkept : Kept t scope incl roots n (ids.length + files.length) limits)
    (hfits : Fits (fresh ids frontier).length n
      ((ids ++ fresh ids frontier).length + (files ++ levelFound t scope incl (fresh ids frontier)).length) limits) :
    Kept t scope incl roots (n + 1)
      ((ids ++ fresh ids frontier).length + (files ++ levelFound t scope incl (fresh ids frontier)).length) limits := by
  cases limits with
  | none => trivial
  | some l =>
    obtain ⟨hwidth, hdepth, htotal⟩ := hfits
    refine ⟨fun m hlt => ?_, fun m x hlt hm => ?_, htotal⟩
    · by_cases hlast : m = n
      · rw [hlast, h.width]
        exact hwidth
      · exact hkept.1 m (by omega)
    · by_cases hlast : m = n
      · rw [hlast]
        exact hdepth
      · exact hkept.2.1 m x (by omega) hm

theorem Gathered.fits (hwithin : WithinLimits t scope incl roots limits) (hlevel : fresh ids frontier ≠ []) :
    Fits (fresh ids frontier).length n
      ((ids ++ fresh ids frontier).length + (files ++ levelFound t scope incl (fresh ids frontier)).length) limits := by
  cases limits with
  | none => trivial
  | some l =>
    obtain ⟨hwidth, hdepth, htotal⟩ := hwithin
    obtain ⟨x, hx⟩ := exists_mem_of_ne_nil _ hlevel
    have hfolders := h.next.folders_le
    have hfiles := h.next.files_le
    refine ⟨?_, hdepth n x (h.explored.mem_fresh.mp hx), by omega⟩
    rw [← h.width]
    exact hwidth n

theorem Gathered.done (hnone : fresh ids frontier = []) :
    (∀ x, x ∈ ids ↔ Reached (ChildOf t scope incl) roots x) ∧ ∀ f, f ∈ files ↔ FileReached t scope incl roots f := by
  refine ⟨fun x => h.explored.done hnone, fun f => (h.files f).trans ?_⟩
  refine and_congr_right fun _ => and_congr_right fun _ => ?_
  constructor
  · rintro ⟨p, hp, hfolder⟩
    exact ⟨p, (h.explored.done hnone).mp hp, hfolder⟩
  · rintro ⟨p, hp, hfolder⟩
    exact ⟨p, (h.explored.done hnone).mpr hp, hfolder⟩

theorem Gathered.within (hnone : fresh ids frontier = [])
    (hkept : Kept t scope incl roots n (ids.length + files.length) limits) : WithinLimits t scope incl roots limits := by
  cases limits with
  | none => trivial
  | some l =>
    obtain ⟨hwidth, hdepth, htotal⟩ := hkept
    obtain ⟨hfolders, hfiles⟩ := h.done hnone
    have hempty : ∀ m, n ≤ m → ∀ x, ¬ Level (ChildOf t scope incl) roots m x := by
      intro m hle
      refine level_empty (fun x hx => ?_) hle
      have hmem := h.explored.mem_fresh.mpr hx
      rw [hnone] at hmem
      cases hmem
    refine ⟨fun m => ?_, fun m x hm => ?_, ?_⟩
    · by_cases hlt : m < n
      · exact hwidth m hlt
      · have hset : {x | Level (ChildOf t scope incl) roots m x} = ∅ :=
          Set.eq_empty_of_forall_notMem (hempty m (by omega))
        rw [hset, Set.ncard_empty]
        exact Nat.zero_le _
    · by_cases hlt : m < n
      · exact hdepth m x hlt hm
      · exact absurd hm (hempty m (by omega) x)
    · have hids := ncard_of_nodup h.explored.nodup (s := {x | Reached (ChildOf t scope incl) roots x}) hfolders
      have hfound := ncard_of_nodup h.once (s := {f | FileReached t scope incl roots f}) hfiles
      rw [hids, hfound]
      exact htotal

/-- **All rounds.** -/
theorem collectRounds_spec (hkept : Kept t scope incl roots n (ids.length + files.length) limits)
    (hrounds : roots.length + t.folders.rows.length < rounds + ids.length) :
    (∀ files' ids', collectRounds t scope incl limits rounds files ids frontier n = .ok (files', ids') →
        files'.Nodup ∧ ids'.Nodup ∧ (∀ x, x ∈ ids' ↔ Reached (ChildOf t scope incl) roots x) ∧
          (∀ f, f ∈ files' ↔ FileReached t scope incl roots f) ∧ WithinLimits t scope incl roots limits) ∧
      (WithinLimits t scope incl roots limits →
        ∃ found, collectRounds t scope incl limits rounds files ids frontier n = .ok found) := by
  induction rounds generalizing n files ids frontier with
  | zero =>
    have hle := h.explored.length_le fun x hx => reached_world hx
    rw [length_append, length_map] at hle
    omega
  | succ rounds ih =>
    by_cases hlevel : fresh ids frontier = []
    · have hstop : collectRounds t scope incl limits (rounds + 1) files ids frontier n = .ok (files, ids) := by
        simp only [collectRounds]
        rw [if_pos hlevel]
      rw [hstop]
      refine ⟨fun files' ids' heq => ?_, fun _ => ⟨_, rfl⟩⟩
      cases heq
      obtain ⟨hfolders, hfiles⟩ := h.done hlevel
      exact ⟨h.once, h.explored.nodup, hfolders, hfiles, h.within hlevel hkept⟩
    · by_cases hfits : Fits (fresh ids frontier).length n
        ((ids ++ fresh ids frontier).length + (files ++ levelFound t scope incl (fresh ids frontier)).length) limits
      · have hpos : 0 < (fresh ids frontier).length := length_pos_iff.mpr hlevel
        rw [collectRounds_fits hlevel hfits]
        refine ih h.next (hkept.next h hfits) ?_
        rw [length_append]
        omega
      · obtain ⟨e, he⟩ := @collectRounds_fails t scope incl limits _ _ _ _ rounds hlevel hfits
        rw [he]
        exact ⟨(fun _ _ heq => nomatch heq), fun hwithin => absurd (h.fits hwithin hlevel) hfits⟩

end

/-- **The bounded collection is exact.** It finds the roots and every folder of the workspace below them, and the files in
these, each once, and it does so exactly if the levels and the number of what there is are within the limits. -/
theorem collectFolderForest_exact (t : Tree) (scope : WorkspaceResourceScope) (roots : List ℕ) (incl : Bool)
    (limits : Option TraversalLimits) :
    (∀ files ids, collectFolderForest t scope roots incl limits = .ok (files, ids) →
        files.Nodup ∧ ids.Nodup ∧ (∀ x, x ∈ ids ↔ Reached (ChildOf t scope incl) roots x) ∧
          ∀ f, f ∈ files ↔ FileReached t scope incl roots f) ∧
      ((∃ found, collectFolderForest t scope roots incl limits = .ok found) ↔
        WithinLimits t scope incl roots limits) := by
  unfold collectFolderForest
  have hkept : Kept t scope incl roots 0 (([] : List ℕ).length + ([] : List File).length) limits := by
    cases limits with
    | none => trivial
    | some l => exact ⟨fun m hm => by omega, fun m x hm => by omega, Nat.zero_le _⟩
  by_cases hroots : roots = []
  · rw [if_pos hroots]
    have hnone : fresh [] roots = [] := by
      rw [hroots]
      rfl
    have hstart := @Gathered.start t scope incl roots
    obtain ⟨hfolders, hfiles⟩ := hstart.done hnone
    refine ⟨fun files ids heq => ?_, fun _ => hstart.within hnone hkept, fun _ => ⟨_, rfl⟩⟩
    cases heq
    exact ⟨nodup_nil, nodup_nil, hfolders, hfiles⟩
  · rw [if_neg hroots]
    obtain ⟨hok, htotal⟩ := @collectRounds_spec t scope incl limits roots [] roots [] 0
      (roots.length + t.folders.rows.length + 1) .start hkept (by rw [length_nil]; omega)
    refine ⟨fun files ids heq => ?_, ?_, htotal⟩
    · obtain ⟨hfiles, hids, hfolders, hfound, -⟩ := hok files ids heq
      exact ⟨hfiles, hids, hfolders, hfound⟩
    · rintro ⟨⟨files, ids⟩, heq⟩
      exact (hok files ids heq).2.2.2.2

/-- A root is taken as it is given: there is no folder 5. -/
theorem collectFolderForest_missingRoot : ∃ files ids,
    collectFolderForest ⟨.empty, .empty⟩ (.personal 7) [5] false none = .ok (files, ids) ∧ 5 ∈ ids ∧
      ¬ ∃ f, (SerialTable.empty : Folders).get 5 = some f ∧ f.workspace = some (.personal 7) := by
  refine ⟨[], [5], rfl, mem_singleton_self 5, ?_⟩
  rintro ⟨f, hf, -⟩
  cases hf

end Forest

end AsterDrive.Files
