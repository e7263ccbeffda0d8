import AsterDrive.Files.Tree
import Mathlib.Data.Finset.Dedup

/-!
# Files/BatchSelection — a selection without what lies below another part of it

`load_normalized_selection_in_scope` drops the files and folders that are below a selected folder. The ancestors are loaded
level by level into a map that has the selected folders to begin with; a row that is in the map is not followed again. Rows
in the trash are rows like others here, and a row of another workspace is like one that is missing.
-/

namespace AsterDrive.Files.BatchSelection

open Db List Option Function Table Forest

def maxBatchItems : ℕ := 1000

def validateBatchIds (fileIds folderIds : List ℕ) : Except AsterError Unit :=
  if fileIds = [] ∧ folderIds = [] then .error (validationError "at least one file or folder ID is required")
  else if maxBatchItems < fileIds.length + folderIds.length then
    .error (validationError ("batch size cannot exceed " ++ toString maxBatchItems ++ " items"))
  else .ok ()

def findFilesByIdsInScope (t : Db.Files) (scope : WorkspaceResourceScope) (ids : List ℕ) : List File :=
  t.rows.filter fun f => fileMatchesScope f scope && decide (f.id ∈ ids)

def findFoldersByIdsInScope (t : Folders) (scope : WorkspaceResourceScope) (ids : List ℕ) : List Folder :=
  t.rows.filter fun f => folderMatchesScope f scope && decide (f.id ∈ ids)

/-- `HashMap<i64, Option<i64>>`: the parent of each folder that was loaded. -/
abbrev Hierarchy := ℕ → Option (Option ℕ)

/-- The body of the loop over the rows. -/
def insertRow (state : Hierarchy × List ℕ) (row : Folder) : Hierarchy × List ℕ :=
  let hierarchy := Function.update state.1 row.id (some row.parentId)
  let next :=
    match state.1 row.id, row.parentId with
    | none, some parentId => if (hierarchy parentId).isNone then parentId :: state.2 else state.2
    | _, _ => state.2
  (hierarchy, next)

section

-- the order in which the database gives the rows of a query
variable (order : List Folder → List Folder)

/-- The `while` loop; `none` when it has not come to its end after so many rounds. -/
def loadRounds (t : Folders) (scope : WorkspaceResourceScope) : ℕ → Hierarchy → List ℕ → Option Hierarchy
  | _, hierarchy, [] => some hierarchy
  | 0, _, _ :: _ => none
  | rounds + 1, hierarchy, id :: ids =>
    let loaded := (order (findFoldersByIdsInScope t scope (id :: ids))).foldl insertRow (hierarchy, [])
    loadRounds t scope rounds loaded.1 loaded.2

def seed (folderMap : List Folder) : Hierarchy := fun id => (folderMap.find? fun f => f.id = id).map Folder.parentId

def loadFolderHierarchyMap (t : Folders) (scope : WorkspaceResourceScope) (fileMap : List File) (folderMap : List Folder) :
    Option Hierarchy :=
  let frontier := (folderMap.filterMap Folder.parentId ++ fileMap.filterMap File.folderId).filter fun id =>
    (seed folderMap id).isNone
  loadRounds order t scope (t.rows.length + 1) (seed folderMap) frontier

/-- The walk up; `none` when it has not come to its end after so many steps. -/
def hasSelectedAncestor (selectedFolderIds : List ℕ) (hierarchy : Hierarchy) : ℕ → Option ℕ → Option Bool
  | _, none => some false
  | 0, some _ => none
  | steps + 1, some folderId =>
    if folderId ∈ selectedFolderIds then some true
    else hasSelectedAncestor selectedFolderIds hierarchy steps (hierarchy folderId).join

/-- `filter` with a walk for each id. -/
def retain (keep : ℕ → Option Bool) : List ℕ → Option (List ℕ)
  | [] => some []
  | id :: ids => (keep id).bind fun kept => (retain keep ids).map fun rest => if kept then id :: rest else rest

/-- Whether an entry is kept: it was not loaded, or no selected folder is found from where it lies. -/
def keeps (selectedFolderIds : List ℕ) (hierarchy : Hierarchy) (steps : ℕ) : Option (Option ℕ) → Option Bool
  | none => some true
  | some start => (hasSelectedAncestor selectedFolderIds hierarchy steps start).map (!·)

def normalizeSelection (steps : ℕ) (fileIds folderIds : List ℕ) (fileMap : List File) (folderMap : List Folder)
    (hierarchy : Hierarchy) : Option (List ℕ × List ℕ) :=
  let keepFolder := fun id => keeps folderIds hierarchy steps ((folderMap.find? fun f => f.id = id).map Folder.parentId)
  let keepFile := fun id => keeps folderIds hierarchy steps ((fileMap.find? fun f => f.id = id).map File.folderId)
  (retain keepFolder folderIds).bind fun folders => (retain keepFile fileIds).map fun files => (files, folders)

structure NormalizedSelection where
  fileIds : List ℕ
  folderIds : List ℕ
  fileMap : List File
  folderMap : List Folder

def loadNormalizedSelectionInScope (requireScopeAccess : WorkspaceStorageScope → Except AsterError Unit) (t : Tree)
    (scope : WorkspaceStorageScope) (fileIds folderIds : List ℕ) : Except AsterError NormalizedSelection := do
  requireScopeAccess scope
  validateBatchIds fileIds folderIds
  let fileMap := findFilesByIdsInScope t.files scope.resource fileIds
  let folderMap := order (findFoldersByIdsInScope t.folders scope.resource folderIds)
  let normalized := (loadFolderHierarchyMap order t.folders scope.resource fileMap folderMap).bind
    (normalizeSelection (t.folders.rows.length + 2) fileIds folderIds fileMap folderMap)
  match normalized with
  | some (files, folders) => .ok ⟨files, folders, fileMap, folderMap⟩
  | none => .error (internalError "the folders of the workspace go round in a circle")

end

/-! ### The folders of the workspace -/

/-- A folder of the workspace. -/
def folderIn (t : Folders) (scope : WorkspaceResourceScope) (id : ℕ) : Option Folder :=
  (t.get id).filter fun f => folderMatchesScope f scope

/-- The folder above a folder of the workspace. -/
abbrev parentIn (t : Folders) (scope : WorkspaceResourceScope) : ℕ → Option ℕ :=
  Forest.parentIn (folderIn t scope) Folder.parentId

section

variable {order : List Folder → List Folder} {t : Folders} {scope : WorkspaceResourceScope} {starts frontier ids : List ℕ}
variable {hierarchy : Hierarchy} {rows : List Folder} {i p : ℕ} {row : Folder}

theorem folderIn_eq_some : folderIn t scope i = some row ↔ t.get i = some row ∧ folderMatchesScope row scope := by
  rw [folderIn, filter_eq_some_iff]

theorem folderIn_of_mem (h : row ∈ t.rows) (hscope : folderMatchesScope row scope) : folderIn t scope row.id = some row :=
  (folderIn_eq_some).mpr ⟨get_of_mem h, hscope⟩

theorem mem_findFolders : row ∈ findFoldersByIdsInScope t scope ids ↔ row.id ∈ ids ∧ folderIn t scope row.id = some row := by
  rw [findFoldersByIdsInScope, mem_filter, Bool.and_eq_true, decide_eq_true_eq]
  constructor
  · rintro ⟨hmem, hscope, hid⟩
    exact ⟨hid, folderIn_of_mem hmem hscope⟩
  · rintro ⟨hid, hrow⟩
    obtain ⟨hget, hscope⟩ := (folderIn_eq_some).mp hrow
    exact ⟨mem_of_get hget, hscope, hid⟩

/-! ### Loading the ancestors -/

/-- A folder that a walk may come to. -/
def Wanted (starts : List ℕ) (hierarchy : Hierarchy) (i : ℕ) : Prop := i ∈ starts ∨ ∃ j, hierarchy j = some (some i)

/-- What is in the map is right, and what is wanted is there, to be loaded, or missing. -/
structure Loading (t : Folders) (scope : WorkspaceResourceScope) (starts : List ℕ) (hierarchy : Hierarchy)
    (frontier : List ℕ) : Prop where
  sound : ∀ i p, hierarchy i = some p → (folderIn t scope i).map Folder.parentId = some p
  wanted : ∀ i, Wanted starts hierarchy i → (hierarchy i).isSome ∨ folderIn t scope i = none ∨ i ∈ frontier

/-- The ids of the table that are not in the map. -/
def missing (t : Folders) (hierarchy : Hierarchy) : Finset ℕ := (t.rows.map Folder.id).toFinset.filter fun i => hierarchy i = none

theorem insertRow_missing {state : Hierarchy × List ℕ} (hrow : row ∈ t.rows) :
    (missing t (insertRow state row).1).card + (insertRow state row).2.length ≤ (missing t state.1).card + state.2.length := by
  have herase : missing t (insertRow state row).1 = (missing t state.1).erase row.id := by
    ext j
    by_cases hj : j = row.id
    all_goals simp [missing, insertRow, hj]
  rw [herase]
  cases hold : state.1 row.id with
  | none =>
    have hmem : row.id ∈ missing t state.1 := by
      simp only [missing, Finset.mem_filter, List.mem_toFinset]
      exact ⟨List.mem_map_of_mem hrow, hold⟩
    have hpositive := Finset.card_pos.mpr ⟨_, hmem⟩
    have hlength : (insertRow state row).2.length ≤ state.2.length + 1 := by
      simp only [insertRow, hold]
      split
      · split_ifs
        · exact Nat.le_refl _
        · exact Nat.le_succ _
      · exact Nat.le_succ _
    rw [Finset.card_erase_of_mem hmem]
    omega
  | some p =>
    have hsame : (insertRow state row).2 = state.2 := by simp [insertRow, hold]
    rw [hsame]
    exact Nat.add_le_add_right (Finset.card_erase_le) _

/-- What the rows of a round leave, when `old` was the map before it. -/
structure Inserted (t : Folders) (scope : WorkspaceResourceScope) (old : Hierarchy) (rows : List Folder)
    (state : Hierarchy × List ℕ) : Prop where
  kept : ∀ i, (old i).isSome → (state.1 i).isSome
  rows : ∀ r ∈ rows, (state.1 r.id).isSome
  sound : ∀ i p, state.1 i = some p → (folderIn t scope i).map Folder.parentId = some p
  pushed : ∀ i j, state.1 j = some (some i) → old j = some (some i) ∨ (state.1 i).isSome ∨ i ∈ state.2
  missing : (missing t state.1).card + state.2.length ≤ (missing t old).card

theorem Inserted.next {old : Hierarchy} {state : Hierarchy × List ℕ} (h : Inserted t scope old rows state)
    (hrow : folderIn t scope row.id = some row) : Inserted t scope old (rows ++ [row]) (insertRow state row) := by
  have hget : (insertRow state row).1 row.id = some row.parentId := update_self _ _ _
  have hother : ∀ {j}, j ≠ row.id → (insertRow state row).1 j = state.1 j := fun hj => update_of_ne hj _ _
  have hkept : ∀ i, (state.1 i).isSome → ((insertRow state row).1 i).isSome := by
    intro i hi
    by_cases hid : i = row.id
    · rw [hid, hget]
      rfl
    · rwa [hother hid]
  have hgrows : ∀ i ∈ state.2, i ∈ (insertRow state row).2 := by
    intro i hi
    simp only [insertRow]
    split
    · split_ifs
      · exact mem_cons_of_mem _ hi
      · exact hi
    · exact hi
  refine ⟨fun i hi => hkept i (h.kept i hi), fun r hr => ?_, fun i p hp => ?_, fun i j hj => ?_, ?_⟩
  · rcases mem_append.mp hr with hr | hr
    · exact hkept _ (h.rows r hr)
    · rw [mem_singleton.mp hr, hget]
      rfl
  · by_cases hid : i = row.id
    · rw [hid, hget] at hp
      rw [hid, hrow]
      exact hp
    · rw [hother hid] at hp
      exact h.sound i p hp
  · by_cases hid : j = row.id
    · rw [hid, hget] at hj
      have hparent : row.parentId = some i := some.inj hj
      cases hold : state.1 row.id with
      | none =>
        -- the row is new, and its parent is in the map or goes to the frontier
        by_cases hin : ((insertRow state row).1 i).isSome
        · exact .inr (.inl hin)
        · refine .inr (.inr ?_)
          have hnone : (Function.update state.1 row.id (some row.parentId) i).isNone := by
            rw [isNone_iff_eq_none]
            exact not_isSome_iff_eq_none.mp hin
          rw [hparent] at hnone
          simp [insertRow, hold, hparent, hnone]
      | some q =>
        -- it was there, with the parent that it has in the table
        have hq := h.sound _ _ hold
        rw [hrow] at hq
        have hsame : state.1 row.id = some (some i) := by rw [hold, ← hq, map_some, hparent]
        rcases h.pushed i row.id hsame with hold | hin | hin
        · exact .inl (hid ▸ hold)
        · exact .inr (.inl (hkept i hin))
        · exact .inr (.inr (hgrows i hin))
    · rw [hother hid] at hj
      rcases h.pushed i j hj with hold | hin | hin
      · exact .inl hold
      · exact .inr (.inl (hkept i hin))
      · exact .inr (.inr (hgrows i hin))
  · have hmem := mem_of_get ((folderIn_eq_some).mp hrow).1
    exact (insertRow_missing hmem).trans h.missing

theorem Loading.inserted (h : Loading t scope starts hierarchy frontier) (hrows : ∀ r ∈ rows, folderIn t scope r.id = some r) :
    Inserted t scope hierarchy rows (rows.foldl insertRow (hierarchy, [])) := by
  induction rows using List.reverseRecOn with
  | nil => exact ⟨fun _ hi => hi, by simp, h.sound, fun _ _ hj => .inl hj, Nat.le_refl _⟩
  | append_singleton rows row ih =>
    rw [foldl_append]
    exact (ih fun r hr => hrows r (mem_append_left _ hr)).next (hrows row (by simp))

/-- **One round.** -/
theorem Loading.next (h : Loading t scope starts hierarchy frontier) (horder : ∀ l, (order l).Perm l) :
    let loaded := (order (findFoldersByIdsInScope t scope frontier)).foldl insertRow (hierarchy, [])
    Loading t scope starts loaded.1 loaded.2 ∧ (missing t loaded.1).card + loaded.2.length ≤ (missing t hierarchy).card := by
  have hrows : ∀ r, r ∈ order (findFoldersByIdsInScope t scope frontier) ↔ r.id ∈ frontier ∧ folderIn t scope r.id = some r :=
    fun r => (horder _).mem_iff.trans mem_findFolders
  have hin := h.inserted fun r hr => ((hrows r).mp hr).2
  refine ⟨⟨hin.sound, fun i hi => ?_⟩, hin.missing⟩
  have hold : Wanted starts hierarchy i → ((List.foldl insertRow (hierarchy, [])
      (order (findFoldersByIdsInScope t scope frontier))).1 i).isSome ∨ folderIn t scope i = none := by
    intro hwanted
    rcases h.wanted i hwanted with hsome | hnone | hmem
    · exact .inl (hin.kept i hsome)
    · exact .inr hnone
    · cases hget : folderIn t scope i with
      | none => exact .inr rfl
      | some row =>
        obtain rfl : row.id = i := key_of_get ((folderIn_eq_some).mp hget).1
        exact .inl (hin.rows row ((hrows row).mpr ⟨hmem, hget⟩))
  rcases hi with hstart | ⟨j, hj⟩
  · rcases hold (.inl hstart) with hsome | hnone
    · exact .inl hsome
    · exact .inr (.inl hnone)
  · rcases hin.pushed i j hj with hbefore | hsome | hmem
    · rcases hold (.inr ⟨j, hbefore⟩) with hsome | hnone
      · exact .inl hsome
      · exact .inr (.inl hnone)
    · exact .inl hsome
    · exact .inr (.inr hmem)

/-- **The loop ends** with all that is wanted. -/
theorem Loading.rounds (h : Loading t scope starts hierarchy frontier) (horder : ∀ l, (order l).Perm l) {rounds : ℕ}
    (hrounds : frontier = [] ∨ (missing t hierarchy).card < rounds) :
    ∃ loaded, loadRounds order t scope rounds hierarchy frontier = some loaded ∧ Loading t scope starts loaded [] := by
  induction rounds generalizing hierarchy frontier with
  | zero =>
    obtain rfl : frontier = [] := hrounds.resolve_right (Nat.not_lt_zero _)
    exact ⟨hierarchy, rfl, h⟩
  | succ rounds ih =>
    cases frontier with
    | nil => exact ⟨hierarchy, rfl, h⟩
    | cons id ids =>
      obtain ⟨hnext, hfewer⟩ := h.next horder
      refine ih hnext ?_
      have hlt := hrounds.resolve_left (cons_ne_nil _ _)
      rw [← length_eq_zero_iff]
      omega

/-! ### The walk -/

variable {selected seen : List ℕ}

theorem Loading.get (h : Loading t scope starts hierarchy []) (hi : Wanted starts hierarchy i) :
    (hierarchy i).join = parentIn t scope i := by
  show _ = (folderIn t scope i).bind Folder.parentId
  cases hget : hierarchy i with
  | some p =>
    obtain ⟨row, hrow, hp⟩ := map_eq_some_iff.mp (h.sound i p hget)
    rw [hrow]
    exact hp.symm
  | none =>
    have hnone : folderIn t scope i = none := by
      rcases h.wanted i hi with hsome | hnone | hmem
      · simp [hget] at hsome
      · exact hnone
      · cases hmem
    rw [hnone]
    rfl

/-- **The walk finds a selected folder if there is one.** `seen` are the folders it has come by. -/
theorem Loading.walk (h : Loading t scope starts hierarchy []) (hforest : Forest.Acyclic (parentIn t scope))
    (hseen : seen.Nodup) (hsub : seen ⊆ t.rows.map Folder.id) (hbelow : ∀ s ∈ seen, Forest.Above (parentIn t scope) i s)
    {steps : ℕ} (hsteps : t.rows.length < steps + seen.length) (hi : Wanted starts hierarchy i) :
    ∃ found, hasSelectedAncestor selected hierarchy (steps + 1) (some i) = some found ∧
      (found = true ↔ ∃ a ∈ selected, Forest.AtOrAbove (parentIn t scope) a i) := by
  induction steps generalizing i seen with
  | zero =>
    have hle := (hseen.subperm hsub).length_le
    rw [length_map] at hle
    omega
  | succ steps ih =>
    rw [hasSelectedAncestor]
    by_cases hsel : i ∈ selected
    · rw [if_pos hsel]
      exact ⟨true, rfl, by simpa using ⟨i, hsel, .refl⟩⟩
    · rw [if_neg hsel, h.get hi]
      cases hparent : parentIn t scope i with
      | none =>
        refine ⟨false, rfl, by simp, ?_⟩
        rintro ⟨a, ha, habove⟩
        rcases atOrAbove_iff.mp habove with rfl | habove
        · exact absurd ha hsel
        · obtain ⟨p, hp, -⟩ := above_iff.mp habove
          rw [hparent] at hp
          cases hp
      | some p =>
        obtain ⟨row, hrow, hup⟩ := bind_eq_some_iff.mp hparent
        have hid : i ∈ t.rows.map Folder.id := by
          obtain ⟨hget, -⟩ := folderIn_eq_some.mp hrow
          exact List.mem_map.mpr ⟨row, mem_of_get hget, key_of_get hget⟩
        have hnew : i ∉ seen := fun hmem => hforest i (hbelow i hmem)
        have hp : Wanted starts hierarchy p := by
          refine .inr ⟨i, ?_⟩
          have hjoin := h.get hi
          rw [hparent] at hjoin
          exact join_eq_some_iff.mp hjoin
        have hbelow' : ∀ s ∈ i :: seen, Forest.Above (parentIn t scope) p s := by
          intro s hs
          rcases mem_cons.mp hs with rfl | hs
          · exact .of_parent hparent
          · exact Forest.Above.trans (.of_parent hparent) (hbelow s hs)
        have hroom : t.rows.length < steps + (i :: seen).length := by
          rw [length_cons]
          omega
        obtain ⟨found, hfound, hiff⟩ := ih (nodup_cons.mpr ⟨hnew, hseen⟩) (cons_subset.mpr ⟨hid, hsub⟩) hbelow' hroom hp
        refine ⟨found, hfound, hiff.trans ⟨fun ⟨a, ha, habove⟩ => ⟨a, ha, habove.trans (.of_above (.of_parent hparent))⟩, ?_⟩⟩
        rintro ⟨a, ha, habove⟩
        rcases atOrAbove_iff.mp habove with rfl | habove
        · exact absurd ha hsel
        · obtain ⟨q, hq, hle⟩ := above_iff.mp habove
          rw [hparent] at hq
          obtain rfl := some.inj hq
          exact ⟨a, ha, hle⟩

/-- A selected folder at or above where a walk begins. -/
def Covered (t : Folders) (scope : WorkspaceResourceScope) (selected : List ℕ) (start : Option ℕ) : Prop :=
  ∃ p, start = some p ∧ ∃ a ∈ selected, Forest.AtOrAbove (parentIn t scope) a p

theorem Loading.covered (h : Loading t scope starts hierarchy []) (hforest : Forest.Acyclic (parentIn t scope))
    {start : Option ℕ} (hstart : ∀ p, start = some p → Wanted starts hierarchy p) :
    ∃ found, hasSelectedAncestor selected hierarchy (t.rows.length + 2) start = some found ∧
      (found = true ↔ Covered t scope selected start) := by
  cases start with
  | none => exact ⟨false, rfl, by simp [Covered]⟩
  | some p =>
    have hroom : t.rows.length < t.rows.length + 1 + ([] : List ℕ).length := Nat.lt_succ_self _
    have hwalk : ∃ found, hasSelectedAncestor selected hierarchy (t.rows.length + 2) (some p) = some found ∧
        (found = true ↔ ∃ a ∈ selected, Forest.AtOrAbove (parentIn t scope) a p) :=
      h.walk hforest nodup_nil (nil_subset _) (by simp) hroom (hstart p rfl)
    obtain ⟨found, hfound, hiff⟩ := hwalk
    exact ⟨found, hfound, by rw [hiff]; simp [Covered]⟩

theorem Loading.keeps (h : Loading t scope starts hierarchy []) (hforest : Forest.Acyclic (parentIn t scope))
    {row : Option (Option ℕ)} (hrow : ∀ p, row = some (some p) → p ∈ starts) :
    ∃ kept, keeps selected hierarchy (t.rows.length + 2) row = some kept ∧
      (kept = true ↔ ∀ start, row = some start → ¬ Covered t scope selected start) := by
  cases row with
  | none => exact ⟨true, rfl, by simp⟩
  | some start =>
    have hwalk : ∃ found, hasSelectedAncestor selected hierarchy (t.rows.length + 2) start = some found ∧
        (found = true ↔ Covered t scope selected start) := h.covered hforest fun p hp => .inl (hrow p (congrArg some hp))
    obtain ⟨found, hfound, hiff⟩ := hwalk
    refine ⟨!found, by rw [BatchSelection.keeps, hfound]; rfl, ?_⟩
    rw [Bool.not_eq_true', ← Bool.not_eq_true, hiff]
    simp

theorem retain_eq {keep : ℕ → Option Bool} {kept : ℕ → Bool} (h : ∀ id ∈ ids, keep id = some (kept id)) :
    retain keep ids = some (ids.filter kept) := by
  induction ids with
  | nil => rfl
  | cons id ids ih =>
    rw [retain, h id mem_cons_self, ih fun x hx => h x (mem_cons_of_mem _ hx)]
    cases hk : kept id <;> simp [hk]

/-! ### The selection -/

def fileIn (t : Db.Files) (scope : WorkspaceResourceScope) (id : ℕ) : Option File :=
  (t.get id).filter fun f => fileMatchesScope f scope

theorem find_folders (horder : ∀ l, (order l).Perm l) (hi : i ∈ ids) :
    ((order (findFoldersByIdsInScope t scope ids)).find? fun f => f.id = i) = folderIn t scope i := by
  have hmem : ∀ r, r ∈ order (findFoldersByIdsInScope t scope ids) ↔ r.id ∈ ids ∧ folderIn t scope r.id = some r :=
    fun r => (horder _).mem_iff.trans mem_findFolders
  cases hfind : (order (findFoldersByIdsInScope t scope ids)).find? fun f => f.id = i with
  | some row =>
    obtain rfl : row.id = i := by simpa using find?_some hfind
    exact ((hmem row).mp (mem_of_find?_eq_some hfind)).2.symm
  | none =>
    cases hget : folderIn t scope i with
    | none => rfl
    | some row =>
      obtain rfl : row.id = i := key_of_get (folderIn_eq_some.mp hget).1
      have hnone := find?_eq_none.mp hfind row ((hmem row).mpr ⟨hi, hget⟩)
      simp at hnone

theorem find_files {t : Db.Files} (hi : i ∈ ids) :
    ((findFilesByIdsInScope t scope ids).find? fun f => f.id = i) = fileIn t scope i := by
  cases hfind : (findFilesByIdsInScope t scope ids).find? fun f => f.id = i with
  | some file =>
    obtain rfl : file.id = i := by simpa using find?_some hfind
    obtain ⟨hmem, hin⟩ := mem_filter.mp (mem_of_find?_eq_some hfind)
    rw [fileIn, Table.get_of_mem hmem, filter_some, if_pos (Bool.and_eq_true _ _ ▸ hin).1]
  | none =>
    cases hget : fileIn t scope i with
    | none => rfl
    | some file =>
      obtain ⟨hrow, hscope⟩ := filter_eq_some_iff.mp hget
      obtain rfl : file.id = i := key_of_get hrow
      have hin : file ∈ findFilesByIdsInScope t scope ids := mem_filter.mpr ⟨mem_of_get hrow, by simp [hscope, hi]⟩
      have hnone := find?_eq_none.mp hfind file hin
      simp at hnone

theorem Loading.seeded {fileMap : List File} {folderMap : List Folder}
    (hmap : ∀ f ∈ folderMap, folderIn t scope f.id = some f) :
    Loading t scope (folderMap.filterMap Folder.parentId ++ fileMap.filterMap File.folderId) (seed folderMap)
      ((folderMap.filterMap Folder.parentId ++ fileMap.filterMap File.folderId).filter fun id => (seed folderMap id).isNone) := by
  have hseed : ∀ {i p}, seed folderMap i = some p → ∃ f ∈ folderMap, f.id = i ∧ f.parentId = p := by
    intro i p hp
    obtain ⟨f, hfind, hp⟩ := map_eq_some_iff.mp hp
    exact ⟨f, mem_of_find?_eq_some hfind, by simpa using find?_some hfind, hp⟩
  refine ⟨fun i p hp => ?_, fun i hi => ?_⟩
  · obtain ⟨f, hf, rfl, rfl⟩ := hseed hp
    rw [hmap f hf]
    rfl
  · have hmem : i ∈ folderMap.filterMap Folder.parentId ++ fileMap.filterMap File.folderId := by
      rcases hi with hstart | ⟨j, hj⟩
      · exact hstart
      · obtain ⟨f, hf, -, hparent⟩ := hseed hj
        exact mem_append_left _ (mem_filterMap.mpr ⟨f, hf, hparent⟩)
    by_cases hin : (seed folderMap i).isSome
    · exact .inl hin
    · exact .inr (.inr (mem_filter.mpr ⟨hmem, by simpa using hin⟩))

/-- A file or a folder, selected or to be covered. -/
inductive Entry
  | file (id : ℕ)
  | folder (id : ℕ)

def entries (fileIds folderIds : List ℕ) : List Entry := fileIds.map .file ++ folderIds.map .folder

def Entry.InScope (t : Tree) (scope : WorkspaceResourceScope) : Entry → Prop
  | file id => (fileIn t.files scope id).isSome
  | folder id => (folderIn t.folders scope id).isSome

/-- A folder covers itself and all that is below it, a file itself. -/
def Entry.Covers (t : Tree) (scope : WorkspaceResourceScope) : Entry → Entry → Prop
  | folder a, folder b => Forest.AtOrAbove (parentIn t.folders scope) a b
  | folder a, file id => ∃ f, fileIn t.files scope id = some f ∧ Covered t.folders scope [a] f.folderId
  | file a, file b => a = b
  | file _, folder _ => False

structure Normalized (t : Tree) (scope : WorkspaceResourceScope) (fileIds folderIds : List ℕ) (s : NormalizedSelection) :
    Prop where
  folder : ∀ id, id ∈ s.folderIds ↔ id ∈ folderIds ∧
    ((folderIn t.folders scope id).isSome → ∀ a ∈ folderIds, ¬ Forest.Above (parentIn t.folders scope) a id)
  file : ∀ id, id ∈ s.fileIds ↔ id ∈ fileIds ∧
    ∀ f, fileIn t.files scope id = some f → ¬ Covered t.folders scope folderIds f.folderId
  distinct : (entries s.fileIds s.folderIds).Nodup
  once : ∀ e : Entry, e.InScope t scope → (∃ x ∈ entries fileIds folderIds, x.Covers t scope e) →
    ∃! x, x ∈ entries s.fileIds s.folderIds ∧ x.Covers t scope e

variable {keptIds folderIds : List ℕ}

theorem exists_topmost (hforest : Forest.Acyclic (parentIn t scope)) (hkept : ∀ id, id ∈ keptIds ↔ id ∈ folderIds ∧
      ((folderIn t scope id).isSome → ∀ a ∈ folderIds, ¬ Forest.Above (parentIn t scope) a id))
    (h : ∃ a ∈ folderIds, Forest.AtOrAbove (parentIn t scope) a p) :
    ∃! m, m ∈ keptIds ∧ Forest.AtOrAbove (parentIn t scope) m p := by
  have hfinite : {i | (parentIn t scope i).isSome}.Finite := by
    refine (finite_toSet (t.rows.map Folder.id)).subset fun i hi => ?_
    obtain ⟨q, hq⟩ := isSome_iff_exists.mp hi
    obtain ⟨row, hrow, -⟩ := bind_eq_some_iff.mp hq
    obtain ⟨hget, -⟩ := folderIn_eq_some.mp hrow
    exact List.mem_map.mpr ⟨row, mem_of_get hget, key_of_get hget⟩
  have hwf := (wellFounded_of_acyclic hfinite hforest).transGen
  obtain ⟨m, ⟨hm, hmp⟩, htop⟩ := hwf.has_min {a | a ∈ folderIds ∧ Forest.AtOrAbove (parentIn t scope) a p} h
  refine ⟨m, ⟨(hkept m).mpr ⟨hm, fun _ a ha habove => ?_⟩, hmp⟩, ?_⟩
  · exact htop a ⟨ha, (Forest.AtOrAbove.of_above habove).trans hmp⟩ habove
  · rintro m' ⟨hm', hmp'⟩
    obtain ⟨hsel, hfree⟩ := (hkept m').mp hm'
    have hnot : ∀ {x}, Forest.Above (parentIn t scope) x m' → x ∉ folderIds := by
      intro x hx hmem
      obtain ⟨q, hq, -⟩ := above_iff.mp hx
      obtain ⟨row, hrow, -⟩ := bind_eq_some_iff.mp hq
      exact hfree (by rw [hrow]; rfl) x hmem hx
    rcases atOrAbove_total hmp hmp' with hle | hle
    · rcases atOrAbove_iff.mp hle with heq | habove
      · exact heq.symm
      · exact absurd hm (hnot habove)
    · rcases atOrAbove_iff.mp hle with heq | habove
      · exact heq
      · exact absurd habove (htop m' ⟨hsel, hmp'⟩)

theorem mem_entries_file {fileIds : List ℕ} : .file i ∈ entries fileIds folderIds ↔ i ∈ fileIds := by simp [entries]

theorem mem_entries_folder {fileIds : List ℕ} : .folder i ∈ entries fileIds folderIds ↔ i ∈ folderIds := by simp [entries]

theorem Normalized.of_kept {t : Tree} {fileIds : List ℕ} {s : NormalizedSelection}
    (hforest : Forest.Acyclic (parentIn t.folders scope)) (hfiles : s.fileIds.Nodup) (hfolders : s.folderIds.Nodup)
    (hfolder : ∀ id, id ∈ s.folderIds ↔ id ∈ folderIds ∧
      ((folderIn t.folders scope id).isSome → ∀ a ∈ folderIds, ¬ Forest.Above (parentIn t.folders scope) a id))
    (hfile : ∀ id, id ∈ s.fileIds ↔ id ∈ fileIds ∧
      ∀ f, fileIn t.files scope id = some f → ¬ Covered t.folders scope folderIds f.folderId) :
    Normalized t scope fileIds folderIds s := by
  have htopmost : ∀ p, (∃ a ∈ folderIds, Forest.AtOrAbove (parentIn t.folders scope) a p) →
      ∃! m, m ∈ s.folderIds ∧ Forest.AtOrAbove (parentIn t.folders scope) m p := fun p => exists_topmost hforest hfolder
  refine ⟨hfolder, hfile, ?_, fun e hin hcovered => ?_⟩
  · refine nodup_append.mpr ⟨hfiles.map fun _ _ => Entry.file.inj, hfolders.map fun _ _ => Entry.folder.inj, ?_⟩
    simp
  · obtain ⟨x, hx, hcovers⟩ := hcovered
    cases e with
    | folder b =>
      cases x with
      | file a => exact hcovers.elim
      | folder a =>
        obtain ⟨m, ⟨hm, hmb⟩, huniq⟩ := htopmost b ⟨a, (mem_entries_folder).mp hx, hcovers⟩
        refine ⟨.folder m, ⟨(mem_entries_folder).mpr hm, hmb⟩, ?_⟩
        rintro (y | y) ⟨hy, hyb⟩
        · exact hyb.elim
        · rw [huniq y ⟨(mem_entries_folder).mp hy, hyb⟩]
    | file b =>
      obtain ⟨f, hf⟩ := isSome_iff_exists.mp hin
      by_cases habove : Covered t.folders scope folderIds f.folderId
      · -- a folder has the file, so the file itself is not kept
        obtain ⟨p, hp, hselected⟩ := habove
        obtain ⟨m, ⟨hm, hmp⟩, huniq⟩ := htopmost p hselected
        refine ⟨.folder m, ⟨(mem_entries_folder).mpr hm, f, hf, p, hp, m, mem_singleton_self m, hmp⟩, ?_⟩
        rintro (y | y) ⟨hy, hyb⟩
        · obtain rfl : y = b := hyb
          exact absurd ⟨p, hp, hselected⟩ (((hfile y).mp ((mem_entries_file).mp hy)).2 f hf)
        · obtain ⟨f', hf', q, hq, z, hz, hle⟩ := hyb
          obtain rfl : f = f' := some.inj (hf.symm.trans hf')
          obtain rfl : p = q := some.inj (hp.symm.trans hq)
          obtain rfl := mem_singleton.mp hz
          rw [huniq z ⟨(mem_entries_folder).mp hy, hle⟩]
      · have hnone : ∀ y ∈ folderIds, ¬ Entry.Covers t scope (.folder y) (.file b) := by
          rintro y hy ⟨f', hf', p, hp, z, hz, hle⟩
          obtain rfl : f = f' := some.inj (hf.symm.trans hf')
          obtain rfl := mem_singleton.mp hz
          exact habove ⟨p, hp, z, hy, hle⟩
        cases x with
        | folder a => exact absurd hcovers (hnone a ((mem_entries_folder).mp hx))
        | file a =>
          obtain rfl : a = b := hcovers
          have hkept : a ∈ s.fileIds := (hfile a).mpr ⟨(mem_entries_file).mp hx, fun f' hf' => by
            obtain rfl : f = f' := some.inj (hf.symm.trans hf')
            exact habove⟩
          refine ⟨.file a, ⟨(mem_entries_file).mpr hkept, rfl⟩, ?_⟩
          rintro (y | y) ⟨hy, hyb⟩
          · exact congrArg Entry.file hyb
          · exact absurd hyb (hnone y ((hfolder y).mp ((mem_entries_folder).mp hy)).1)

end

/-- **A selection is normalized** in every forest, whatever it has of other workspaces or of nested folders. -/
theorem selection_normalized (order : List Folder → List Folder)
    (requireScopeAccess : WorkspaceStorageScope → Except AsterError Unit) (t : Tree) (scope : WorkspaceStorageScope)
    (fileIds folderIds : List ℕ) (horder : ∀ l, (order l).Perm l)
    (hforest : Forest.Acyclic (parentIn t.folders scope.resource)) (haccess : requireScopeAccess scope = .ok ())
    (hvalid : validateBatchIds fileIds folderIds = .ok ()) (hfiles : fileIds.Nodup) (hfolders : folderIds.Nodup) :
    ∃ s, loadNormalizedSelectionInScope order requireScopeAccess t scope fileIds folderIds = .ok s ∧
      Normalized t scope.resource fileIds folderIds s := by
  have hmap : ∀ f ∈ order (findFoldersByIdsInScope t.folders scope.resource folderIds),
      folderIn t.folders scope.resource f.id = some f := fun f hf => (mem_findFolders.mp ((horder _).mem_iff.mp hf)).2
  have hmissing : (missing t.folders (seed (order (findFoldersByIdsInScope t.folders scope.resource folderIds)))).card <
      t.folders.rows.length + 1 := by
    refine Nat.lt_succ_of_le ((Finset.card_filter_le _ _).trans ((toFinset_card_le _).trans ?_))
    rw [length_map]
  obtain ⟨hierarchy, hload, hdone⟩ :=
    (@Loading.seeded t.folders scope.resource (findFilesByIdsInScope t.files scope.resource fileIds) _ hmap).rounds horder
      (.inr hmissing)
  have hparents : ∀ id ∈ folderIds, ∀ p, (folderIn t.folders scope.resource id).map Folder.parentId = some (some p) →
      p ∈ (order (findFoldersByIdsInScope t.folders scope.resource folderIds)).filterMap Folder.parentId := by
    intro id hid p hp
    obtain ⟨f, hf, hparent⟩ := map_eq_some_iff.mp hp
    rw [← find_folders horder hid] at hf
    exact mem_filterMap.mpr ⟨f, mem_of_find?_eq_some hf, hparent⟩
  have hlie : ∀ id ∈ fileIds, ∀ p, (fileIn t.files scope.resource id).map File.folderId = some (some p) →
      p ∈ (findFilesByIdsInScope t.files scope.resource fileIds).filterMap File.folderId := by
    intro id hid p hp
    obtain ⟨f, hf, hfolder⟩ := map_eq_some_iff.mp hp
    rw [← find_files hid] at hf
    exact mem_filterMap.mpr ⟨f, mem_of_find?_eq_some hf, hfolder⟩
  -- what becomes of an id is what the walk from its row finds
  choose! keptFolder hkeptFolder using fun id hid => @Loading.keeps _ _ _ _ folderIds hdone hforest _
    fun p hp => mem_append_left _ (hparents id hid p hp)
  choose! keptFile hkeptFile using fun id hid => @Loading.keeps _ _ _ _ folderIds hdone hforest _
    fun p hp => mem_append_right _ (hlie id hid p hp)
  have hnormalize : normalizeSelection (t.folders.rows.length + 2) fileIds folderIds
      (findFilesByIdsInScope t.files scope.resource fileIds)
      (order (findFoldersByIdsInScope t.folders scope.resource folderIds)) hierarchy =
      some (fileIds.filter keptFile, folderIds.filter keptFolder) := by
    have hfolder : ∀ id ∈ folderIds, keeps folderIds hierarchy (t.folders.rows.length + 2)
        (((order (findFoldersByIdsInScope t.folders scope.resource folderIds)).find? fun f => f.id = id).map Folder.parentId) =
        some (keptFolder id) := fun id hid => by rw [find_folders horder hid]; exact (hkeptFolder id hid).1
    have hfile : ∀ id ∈ fileIds, keeps folderIds hierarchy (t.folders.rows.length + 2)
        (((findFilesByIdsInScope t.files scope.resource fileIds).find? fun f => f.id = id).map File.folderId) =
        some (keptFile id) := fun id hid => by rw [find_files hid]; exact (hkeptFile id hid).1
    unfold normalizeSelection
    dsimp only
    rw [retain_eq hfolder, retain_eq hfile]
    rfl
  have hkept : ∀ id, id ∈ folderIds.filter keptFolder ↔ id ∈ folderIds ∧ ((folderIn t.folders scope.resource id).isSome →
      ∀ a ∈ folderIds, ¬ Forest.Above (parentIn t.folders scope.resource) a id) := by
    intro id
    rw [mem_filter]
    refine and_congr_right fun hid => (hkeptFolder id hid).2.trans ?_
    cases hrow : folderIn t.folders scope.resource id with
    | none => simp
    | some f =>
      have hparent : parentIn t.folders scope.resource id = f.parentId := parentIn_of_lookup hrow
      simp only [Covered, above_iff, hparent, map_some, some.injEq, forall_eq', isSome_some]
      exact ⟨fun h _ a ha ⟨p, hp, hle⟩ => h ⟨p, hp, a, ha, hle⟩, fun h ⟨p, hp, a, ha, hle⟩ => h trivial a ha ⟨p, hp, hle⟩⟩
  have hkeptFiles : ∀ id, id ∈ fileIds.filter keptFile ↔ id ∈ fileIds ∧ ∀ f, fileIn t.files scope.resource id = some f →
      ¬ Covered t.folders scope.resource folderIds f.folderId := by
    intro id
    rw [mem_filter]
    refine and_congr_right fun hid => (hkeptFile id hid).2.trans ?_
    simp
  refine ⟨⟨fileIds.filter keptFile, folderIds.filter keptFolder, findFilesByIdsInScope t.files scope.resource fileIds,
    order (findFoldersByIdsInScope t.folders scope.resource folderIds)⟩, ?_, .of_kept hforest (hfiles.filter _) (hfolders.filter _) hkept hkeptFiles⟩
  unfold loadNormalizedSelectionInScope
  rw [haccess, hvalid]
  simp only [loadFolderHierarchyMap, hload, hnormalize, bind_some]
  rfl

/-- Three folders in each other with a file in the innermost, and a folder of another user. -/
def nestedFolders : Tree where
  folders :=
    { rows := [⟨1, some 7, none, none, "a", none⟩, ⟨2, some 7, none, some 1, "b", some 4⟩,
        ⟨3, some 7, none, some 2, "c", none⟩, ⟨4, some 8, none, none, "d", none⟩]
      unique := by decide
      next := 5
      below := by decide }
  files :=
    { rows := [⟨1, some 7, none, some 3, "f", 1, 1, "", 0, none⟩, ⟨2, some 7, none, none, "g", 1, 1, "", 0, none⟩]
      unique := by decide
      next := 3
      below := by decide }

theorem selection_normalized_nested :
    ∃ s, loadNormalizedSelectionInScope id (fun _ => .ok ()) nestedFolders (.personal 7) [1, 2, 9] [3, 1, 4] = .ok s ∧
      s.fileIds = [2, 9] ∧ s.folderIds = [1, 4] ∧ Normalized nestedFolders (.personal 7) [1, 2, 9] [3, 1, 4] s := by
  have hforest : Forest.Acyclic (parentIn nestedFolders.folders (.personal 7)) := by
    refine @acyclic_of_rank _ _ (fun i => i) fun i p hp => ?_
    obtain ⟨row, hrow, hup⟩ := bind_eq_some_iff.mp hp
    obtain ⟨hget, -⟩ := folderIn_eq_some.mp hrow
    have hall : ∀ r ∈ nestedFolders.folders.rows, ∀ q, r.parentId = some q → q < r.id := by decide
    obtain rfl : row.id = i := key_of_get hget
    exact hall row (mem_of_get hget) p hup
  obtain ⟨s, hs, hnormalized⟩ := selection_normalized id (fun _ => .ok ()) nestedFolders (.personal 7) [1, 2, 9] [3, 1, 4]
    (fun _ => .refl _) hforest rfl rfl (by decide) (by decide)
  have hkept : (loadNormalizedSelectionInScope id (fun _ => .ok ()) nestedFolders (.personal 7) [1, 2, 9] [3, 1, 4]).map
      (fun s => (s.fileIds, s.folderIds)) = .ok ([2, 9], [1, 4]) := by decide
  rw [hs] at hkept
  obtain ⟨hfiles, hfolders⟩ := Prod.mk.inj (Except.ok.inj hkept)
  exact ⟨s, hs, hfiles, hfolders, hnormalized⟩

end AsterDrive.Files.BatchSelection
