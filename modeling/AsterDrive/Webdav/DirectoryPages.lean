import AsterDrive.Lib.Keyset
import AsterDrive.Webdav.PathResolver
import AsterDrive.Workspace.Runs
import Mathlib.Data.Prod.Lex

/-!
# DirectoryPages — a WebDAV directory, page by page

`read_directory_page_with_consistency`: first the folders of a directory by id, then its files by id. A page is fetched
with one row too many, which tells whether there is more; the cursor of the next page is the last row of this one.

`remaining` is what is still to come at a cursor. A page takes a part of it and leaves the rest to its cursor
(`readDirectoryPage_splits`), so that a walk from no cursor lists everything once (`walk_complete`), and what stays there
also when other entries come and go (`walk_while_changing`). The caches of the path resolver are left out.
-/

namespace AsterDrive.Webdav

open Db Files List Option Keyset

inductive AsterDavDirectoryCursor
  | folders (id : ℕ)
  | files (id : ℕ)

/-- `DavBackendError`; errors of the path resolver are kept as they are. -/
inductive DavBackendError
  | path (e : FsError)
  | forbidden
  | invalidInput
  | internal
  deriving DecidableEq

/-- `CurrentRevisionSnapshot` -/
structure CurrentRevisionSnapshot where
  revision : FileRevision
  deltavControlled : Bool

inductive AsterDavDirEntry
  | fromFolder (folder : Folder)
  | fromFileRecord (file : File) (revision : FileRevision) (deltavControlled : Bool)

open AsterDavDirEntry

structure DavDirectoryPage where
  entries : List AsterDavDirEntry
  nextCursor : Option AsterDavDirectoryCursor

def usizeMax : ℕ := 18446744073709551615

/-! ### The queries -/

section Queries

variable (folders : Folders) (db : Db) (scope : WorkspaceStorageScope)

def childFolders (parentId : Option ℕ) : List Folder :=
  folders.rows.filter fun f => folderMatchesScope f scope.resource && f.deletedAt.isNone && decide (f.parentId = parentId)

def childFiles (folderId : Option ℕ) : List File :=
  db.files.rows.filter fun f => fileMatchesScope f scope.resource && f.deletedAt.isNone && decide (f.folderId = folderId)

/-- `find_children_after_id_in_scope` -/
def folderPage (parentId afterId : Option ℕ) (limit : ℕ) : List Folder :=
  Keyset.page Folder.id afterId limit (childFolders folders scope parentId)

/-- `find_by_folder_after_id_in_scope` -/
def filePage (folderId afterId : Option ℕ) (limit : ℕ) : List File :=
  Keyset.page File.id afterId limit (childFiles db scope folderId)

/-- The snapshot of one history. -/
def snapshotOf (h : FileRevisionHistory) : Except AsterError (ℕ × CurrentRevisionSnapshot) :=
  match h.fileId with
  | none => .error (internalError "active revision history has no file id")
  | some fileId =>
    match h.currentRevisionId with
    | none => .error (internalError ("file #" ++ toString fileId ++ " revision history has no current revision"))
    | some currentId =>
      match db.revisions.get currentId with
      | none => .error (internalError ("file #" ++ toString fileId ++ " revision history has a dangling current pointer"))
      | some revision => .ok (fileId, { revision, deltavControlled := h.deltavControlled })

/-- `current_revision_snapshots_by_file_ids` -/
def currentRevisionSnapshotsByFileIds (fileIds : List ℕ) : Except AsterError (List (ℕ × CurrentRevisionSnapshot)) :=
  (db.histories.rows.filter fun h => ∃ i ∈ fileIds, h.fileId = some i).mapM (snapshotOf db)

/-- `file_entries`: the last snapshot of a file is the one in the map. -/
def fileEntries (files : List File) : Except DavBackendError (List AsterDavDirEntry) :=
  match currentRevisionSnapshotsByFileIds db (files.map File.id) with
  | .error _ => .error .internal
  | .ok revisions => files.mapM fun file =>
    match revisions.reverse.find? fun x => x.1 = file.id with
    | some (_, snapshot) => .ok (.fromFileRecord file snapshot.revision snapshot.deltavControlled)
    | none => .error .internal

/-! ### A page -/

/-- `file_only_page` -/
def fileOnlyPage (files : List File) (maximumEntries : ℕ) : Except DavBackendError DavDirectoryPage :=
  let hasMore := maximumEntries < files.length
  let returned := files.take maximumEntries
  let nextCursor := if hasMore then some (.files ((returned.getLast?.map File.id).getD 0)) else none
  (fileEntries db returned).map fun entries => { entries, nextCursor }

/-- `resolve_directory_id` -/
def resolveDirectoryId (backend : DbBackend) (normalizeName : String → String) (rootFolderId : Option ℕ) (path : String) :
    Except DavBackendError (Option ℕ) :=
  match resolvePathInScope backend normalizeName { folders, files := db.files } scope rootFolderId path with
  | .error e => .error (.path e)
  | .ok .root => .ok rootFolderId
  | .ok (.folder folder) => .ok (some folder.id)
  | .ok (.file _) => .error .forbidden

/-- The page of a directory that was resolved, at a cursor that is none or one of folders. -/
def readFoldersPage (folderId folderAfter : Option ℕ) (maximumEntries : ℕ) : Except DavBackendError DavDirectoryPage :=
  let rows := folderPage folders scope folderId folderAfter (maximumEntries + 1)
  if maximumEntries < rows.length then
    let returned := rows.take maximumEntries
    .ok { entries := returned.map .fromFolder, nextCursor := returned.getLast?.map fun folder => .folders folder.id }
  else
    let remaining := maximumEntries - rows.length
    if remaining = 0 then
      let hasMoreFiles := ¬ (filePage db scope folderId none 1).isEmpty
      .ok { entries := rows.map .fromFolder
            nextCursor := if hasMoreFiles then some (.folders ((rows.getLast?.map Folder.id).getD 0)) else none }
    else if usizeMax < remaining + 1 then .error .invalidInput
    else
      let files := filePage db scope folderId none (remaining + 1)
      let returnedFiles := files.take remaining
      let nextCursor :=
        if remaining < files.length then some (.files ((returnedFiles.getLast?.map File.id).getD 0)) else none
      (fileEntries db returnedFiles).map fun entries => { entries := rows.map .fromFolder ++ entries, nextCursor }

/-- `read_directory_page_with_consistency` -/
def readDirectoryPage (backend : DbBackend) (normalizeName : String → String) (rootFolderId : Option ℕ) (path : String)
    (cursor : Option AsterDavDirectoryCursor) (maximumEntries : ℕ) : Except DavBackendError DavDirectoryPage := do
  let folderId ← resolveDirectoryId folders db scope backend normalizeName rootFolderId path
  if usizeMax < maximumEntries + 1 then .error .invalidInput
  else
    match cursor with
    | none => readFoldersPage folders db scope folderId none maximumEntries
    | some (.folders id) => readFoldersPage folders db scope folderId (some id) maximumEntries
    | some (.files id) => fileOnlyPage db (filePage db scope folderId (some id) (maximumEntries + 1)) maximumEntries

/-- Pages behind each other until one has no cursor; `none` if there are more than `n`. -/
def walk (read : Option AsterDavDirectoryCursor → Except DavBackendError DavDirectoryPage) :
    ℕ → Option AsterDavDirectoryCursor → Except DavBackendError (Option (List DavDirectoryPage))
  | 0, _ => .ok none
  | n + 1, cursor => do
    let page ← read cursor
    match page.nextCursor with
    | none => .ok (some [page])
    | some next => do
      let rest ← walk read n (some next)
      .ok (rest.map fun pages => page :: pages)

end Queries

/-! ### What is listed -/

/-- The row of an entry. -/
def AsterDavDirEntry.row : AsterDavDirEntry → Folder ⊕ File
  | .fromFolder folder => .inl folder
  | .fromFileRecord file _ _ => .inr file

section Listing

variable {folders : Folders} {db : Db} {scope : WorkspaceStorageScope} {folderId : Option ℕ} {maximumEntries : ℕ}

theorem snapshotOf_ok (hledger : Ledger db.files db.histories db.revisions ∅) {h : FileRevisionHistory}
    (hh : h ∈ db.histories.rows) {i : ℕ} (hi : h.fileId = some i) : ∃ x, snapshotOf db h = .ok x ∧ some x.1 = h.fileId := by
  obtain ⟨_, f, hf, rfl⟩ := hledger.owned h hh i hi
  obtain ⟨r, l, hlineage, _⟩ := hledger.chain f hf h hh hi
  have hcurrent : h.currentRevisionId = some r.id := hlineage.head
  have hr : db.revisions.get r.id = some r := Table.get_of_mem ((hlineage.mem r).mp mem_cons_self).1
  refine ⟨(f.id, { revision := r, deltavControlled := h.deltavControlled }), ?_, hi.symm⟩
  unfold snapshotOf
  rw [hi, hcurrent]
  dsimp only
  rw [hr]

theorem fileEntries_ok {files : List File} (hledger : Ledger db.files db.histories db.revisions ∅)
    (hfiles : ∀ f ∈ files, f ∈ db.files.rows) :
    ∃ entries, fileEntries db files = .ok entries ∧ entries.map row = files.map .inr := by
  obtain ⟨snapshots, hsnapshots, hids⟩ : ∃ snapshots, currentRevisionSnapshotsByFileIds db (files.map File.id) = .ok snapshots ∧
      snapshots.map (fun x => some x.1) = (db.histories.rows.filter fun h => ∃ i ∈ files.map File.id, h.fileId = some i).map
        FileRevisionHistory.fileId := by
    refine mapM_succeeds fun h hh => ?_
    obtain ⟨hrow, hfile⟩ := mem_filter.mp hh
    obtain ⟨i, _, hi⟩ := of_decide_eq_true hfile
    exact snapshotOf_ok hledger hrow hi
  unfold fileEntries
  rw [hsnapshots]
  refine mapM_succeeds fun f hf => ?_
  obtain ⟨h, hh, hfile⟩ := hledger.kept f (hfiles f hf) (Set.notMem_empty _)
  have hin : some f.id ∈ snapshots.map fun x => some x.1 := by
    rw [hids, ← hfile]
    exact List.mem_map_of_mem (mem_filter.mpr ⟨hh, decide_eq_true ⟨f.id, List.mem_map_of_mem hf, hfile⟩⟩)
  obtain ⟨x, hx, hid⟩ := List.mem_map.mp hin
  have hfound : (snapshots.reverse.find? fun x => x.1 = f.id).isSome := by
    rw [find?_isSome]
    exact ⟨x, mem_reverse.mpr hx, decide_eq_true (some.inj hid)⟩
  obtain ⟨⟨_, snapshot⟩, hsnapshot⟩ := isSome_iff_exists.mp hfound
  rw [hsnapshot]
  exact ⟨_, rfl, rfl⟩

/-- What is still to be listed at a cursor. -/
def remaining (folders : Folders) (db : Db) (scope : WorkspaceStorageScope) (folderId : Option ℕ) :
    Option AsterDavDirectoryCursor → List (Folder ⊕ File)
  | none => (Keyset.behind Folder.id none (childFolders folders scope folderId)).map .inl ++
      (Keyset.behind File.id none (childFiles db scope folderId)).map .inr
  | some (.folders id) => (Keyset.behind Folder.id (some id) (childFolders folders scope folderId)).map .inl ++
      (Keyset.behind File.id none (childFiles db scope folderId)).map .inr
  | some (.files id) => (Keyset.behind File.id (some id) (childFiles db scope folderId)).map .inr

/-- A page takes the next part of what is to be listed, not empty if there is more, and leaves the rest to its cursor. -/
structure Splits (rest : AsterDavDirectoryCursor → List (Folder ⊕ File)) (maximumEntries : ℕ) (all : List (Folder ⊕ File))
    (page : DavDirectoryPage) : Prop where
  size : page.entries.length ≤ maximumEntries
  listed : page.entries.map row ++ page.nextCursor.elim [] rest = all
  moves : page.nextCursor.isSome → page.entries ≠ []

theorem nodup_childFolders : ((childFolders folders scope folderId).map Folder.id).Nodup :=
  folders.unique.sublist (List.filter_sublist.map _)

theorem nodup_childFiles : ((childFiles db scope folderId).map File.id).Nodup :=
  db.files.unique.sublist (List.filter_sublist.map _)

theorem mem_of_mem_filePage {after : Option ℕ} {limit : ℕ} {f : File} (h : f ∈ filePage db scope folderId after limit) :
    f ∈ db.files.rows := (mem_filter.mp (mem_of_mem_page h).1).1

/-- **The files behind a cursor**, at most `n` of them. -/
theorem files_split (folders : Folders) (db : Db) (scope : WorkspaceStorageScope) (folderId after : Option ℕ) {n : ℕ}
    (hn : 0 < n) (hledger : Ledger db.files db.histories db.revisions ∅) :
    ∃ entries, fileEntries db ((filePage db scope folderId after (n + 1)).take n) = .ok entries ∧ entries.length ≤ n ∧
      (n < (filePage db scope folderId after (n + 1)).length → entries.length = n) ∧
      entries.map row ++ (if n < (filePage db scope folderId after (n + 1)).length then
          some (AsterDavDirectoryCursor.files ((((filePage db scope folderId after (n + 1)).take n).getLast?.map File.id).getD 0))
        else none).elim [] (fun c => remaining folders db scope folderId (some c)) =
      (Keyset.behind File.id after (childFiles db scope folderId)).map .inr := by
  obtain ⟨entries, hentries, hrows⟩ := fileEntries_ok hledger fun f hf =>
    mem_of_mem_filePage (mem_of_mem_take hf : f ∈ filePage db scope folderId after (n + 1))
  have hlength := congrArg List.length hrows
  rw [length_map, length_map] at hlength
  refine ⟨entries, hentries, ?_, fun hmore => ?_, ?_⟩
  · rw [hlength]
    exact length_take_le _ _
  · rw [hlength, length_take]
    omega
  · rw [hrows]
    split_ifs with hmore
    · obtain ⟨y, hlast, _, hsplit⟩ := overfetch_more nodup_childFiles hn hmore
      unfold filePage
      rw [hlast, hsplit, map_append]
      rfl
    · have hall : filePage db scope folderId after (n + 1) = behind File.id after (childFiles db scope folderId) :=
        overfetch_last (not_lt.mp hmore)
      rw [take_of_length_le (not_lt.mp hmore), hall]
      exact append_nil _

/-- **A page that begins with folders.** -/
theorem readFoldersPage_splits {after : Option ℕ} (hpositive : 0 < maximumEntries) (husize : maximumEntries < usizeMax)
    (hledger : Ledger db.files db.histories db.revisions ∅) :
    ∃ page, readFoldersPage folders db scope folderId after maximumEntries = .ok page ∧
      Splits (fun c => remaining folders db scope folderId (some c)) maximumEntries
        ((Keyset.behind Folder.id after (childFolders folders scope folderId)).map .inl ++
          (Keyset.behind File.id none (childFiles db scope folderId)).map .inr) page := by
  unfold readFoldersPage
  dsimp only
  have hrow : ∀ fs : List Folder, (fs.map fromFolder).map row = fs.map .inl := by
    intro fs
    rw [List.map_map]
    rfl
  by_cases hmore : maximumEntries < (folderPage folders scope folderId after (maximumEntries + 1)).length
  · -- the page is full of folders, and there are more
    rw [if_pos hmore]
    obtain ⟨y, hlast, hlength, hsplit⟩ := overfetch_more nodup_childFolders hpositive hmore
    refine ⟨_, rfl, ?_, ?_, fun _ hnil => ?_⟩
    · rw [length_map]
      exact length_take_le _ _
    · dsimp only
      rw [hrow]
      unfold folderPage
      rw [hlast, hsplit, map_append, append_assoc]
      rfl
    · have hempty := congrArg List.length hnil
      rw [length_map] at hempty
      unfold folderPage at hempty
      rw [hlength, length_nil] at hempty
      omega
  · rw [if_neg hmore]
    have hall : folderPage folders scope folderId after (maximumEntries + 1) =
        behind Folder.id after (childFolders folders scope folderId) := overfetch_last (not_lt.mp hmore)
    by_cases hfull : maximumEntries - (folderPage folders scope folderId after (maximumEntries + 1)).length = 0
    · -- the last folders fill the page
      rw [if_pos hfull]
      have hne : folderPage folders scope folderId after (maximumEntries + 1) ≠ [] := by
        intro hnil
        rw [hnil, length_nil] at hfull
        omega
      obtain ⟨y, hlast⟩ : ∃ y, (folderPage folders scope folderId after (maximumEntries + 1)).getLast? = some y :=
        ⟨_, getLast?_eq_some_getLast hne⟩
      refine ⟨_, rfl, ?_, ?_, fun _ hnil => hne (map_eq_nil_iff.mp hnil)⟩
      · rw [length_map]
        exact not_lt.mp hmore
      · dsimp only
        rw [hrow, hlast, ← hall]
        split_ifs with hfiles
        · have hnone : behind File.id none (childFiles db scope folderId) = [] := by
            have hempty : filePage db scope folderId none 1 = [] := List.isEmpty_iff.mp hfiles
            have hlen := congrArg List.length hempty
            unfold filePage page at hlen
            rw [length_take, length_nil] at hlen
            exact eq_nil_of_length_eq_zero (by omega)
          rw [hnone]
          rfl
        · have hnone : behind Folder.id (some y.id) (childFolders folders scope folderId) = [] :=
            behind_last nodup_childFolders hall hlast
          show _ ++ (List.map _ (behind Folder.id (some y.id) _) ++ _) = _
          rw [hnone]
          rfl
    · -- files fill the page up
      rw [if_neg hfull, if_neg (by omega)]
      obtain ⟨entries, hentries, hle, hmoves, hsplit⟩ :=
        files_split folders db scope folderId none (Nat.pos_of_ne_zero hfull) hledger
      rw [hentries]
      refine ⟨_, rfl, ?_, ?_, fun hsome hnil => ?_⟩
      · rw [length_append, length_map]
        omega
      · dsimp only
        rw [map_append, hrow, append_assoc, hsplit, hall]
      · dsimp only at hsome hnil
        have hentries := (append_eq_nil_iff.mp hnil).2
        split_ifs at hsome with hfiles
        · have hlength := hmoves hfiles
          rw [hentries, length_nil] at hlength
          omega
        · cases hsome

theorem fileOnlyPage_splits {id : ℕ} (hpositive : 0 < maximumEntries) (hledger : Ledger db.files db.histories db.revisions ∅) :
    ∃ page, fileOnlyPage db (filePage db scope folderId (some id) (maximumEntries + 1)) maximumEntries = .ok page ∧
      Splits (fun c => remaining folders db scope folderId (some c)) maximumEntries
        ((Keyset.behind File.id (some id) (childFiles db scope folderId)).map .inr) page := by
  obtain ⟨entries, hentries, hle, hmoves, hsplit⟩ := files_split folders db scope folderId (some id) hpositive hledger
  unfold fileOnlyPage
  dsimp only
  rw [hentries]
  refine ⟨_, rfl, hle, hsplit, fun hsome hnil => ?_⟩
  dsimp only at hsome hnil
  split_ifs at hsome with hmore
  · have hlength := hmoves hmore
    rw [hnil, length_nil] at hlength
    omega
  · cases hsome

section Walk

variable {backend : DbBackend} {normalizeName : String → String} {rootFolderId : Option ℕ} {path : String}
  {cursor : Option AsterDavDirectoryCursor}

/-- **Every page** takes the next part of the directory and leaves the rest to its cursor. -/
theorem readDirectoryPage_splits
    (hdirectory : resolveDirectoryId folders db scope backend normalizeName rootFolderId path = .ok folderId)
    (hledger : Ledger db.files db.histories db.revisions ∅) (hpositive : 0 < maximumEntries)
    (husize : maximumEntries < usizeMax) (cursor : Option AsterDavDirectoryCursor) :
    ∃ page, readDirectoryPage folders db scope backend normalizeName rootFolderId path cursor maximumEntries = .ok page ∧
      Splits (fun c => remaining folders db scope folderId (some c)) maximumEntries
        (remaining folders db scope folderId cursor) page := by
  have hread : readDirectoryPage folders db scope backend normalizeName rootFolderId path cursor maximumEntries =
      match cursor with
      | none => readFoldersPage folders db scope folderId none maximumEntries
      | some (.folders id) => readFoldersPage folders db scope folderId (some id) maximumEntries
      | some (.files id) =>
        fileOnlyPage db (filePage db scope folderId (some id) (maximumEntries + 1)) maximumEntries := by
    unfold readDirectoryPage
    rw [hdirectory]
    exact if_neg (by omega)
  rw [hread]
  match cursor with
  | none => exact readFoldersPage_splits hpositive husize hledger
  | some (.folders id) => exact readFoldersPage_splits hpositive husize hledger
  | some (.files id) => exact fileOnlyPage_splits hpositive hledger

/-- **A walk**, from any cursor: it ends, and has listed what was still to come. -/
theorem walk_splits {read : Option AsterDavDirectoryCursor → Except DavBackendError DavDirectoryPage}
    (hread : ∀ cursor, ∃ page, read cursor = .ok page ∧ Splits (fun c => remaining folders db scope folderId (some c))
      maximumEntries (remaining folders db scope folderId cursor) page) (cursor : Option AsterDavDirectoryCursor) :
    ∃ pages, (∀ n, (remaining folders db scope folderId cursor).length < n → walk read n cursor = .ok (some pages)) ∧
      (∀ p ∈ pages, p.entries.length ≤ maximumEntries) ∧
      (pages.flatMap DavDirectoryPage.entries).map row = remaining folders db scope folderId cursor := by
  -- on the number of rows that are still to come
  induction hlength : (remaining folders db scope folderId cursor).length using Nat.strong_induction_on generalizing cursor with
  | _ length ih =>
    obtain ⟨page, hpage, hsize, hlisted, hmoves⟩ := hread cursor
    cases hnext : page.nextCursor with
    | none =>
      rw [hnext] at hlisted
      refine ⟨[page], fun n hn => ?_, fun p hp => ?_, ?_⟩
      · obtain ⟨n, rfl⟩ := Nat.exists_eq_add_of_lt hn
        refine bind_ok_iff.mpr ⟨page, hpage, ?_⟩
        rw [hnext]
      · rw [mem_singleton.mp hp]
        exact hsize
      · rw [flatMap_singleton, ← hlisted]
        exact (append_nil _).symm
    | some next =>
      rw [hnext] at hlisted hmoves
      have hrows := congrArg List.length hlisted
      rw [length_append, length_map] at hrows
      have hentries : 0 < page.entries.length := length_pos_iff.mpr (hmoves rfl)
      have hless : (remaining folders db scope folderId (some next)).length < length := by
        rw [← hlength, ← hrows]
        exact Nat.lt_add_of_pos_left hentries
      obtain ⟨pages, hwalk, hsizes, hrest⟩ := ih _ hless (some next) rfl
      refine ⟨page :: pages, fun n hn => ?_, fun p hp => ?_, ?_⟩
      · obtain ⟨n, rfl⟩ : ∃ m, n = m + 1 := Nat.exists_eq_succ_of_ne_zero (by omega)
        refine bind_ok_iff.mpr ⟨page, hpage, ?_⟩
        rw [hnext]
        exact bind_ok_iff.mpr ⟨some pages, hwalk n (by omega), rfl⟩
      · rcases mem_cons.mp hp with rfl | hp
        · exact hsize
        · exact hsizes p hp
      · rw [flatMap_cons, map_append, hrest]
        exact hlisted

theorem mem_childFolders {f : Folder} : f ∈ childFolders folders scope folderId ↔
    f ∈ folders.rows ∧ f.ActiveIn scope.resource ∧ f.parentId = folderId := by
  unfold childFolders Folder.ActiveIn
  rw [mem_filter, Bool.and_eq_true, Bool.and_eq_true, folderMatchesScope_iff, isNone_iff_eq_none, decide_eq_true_eq]

theorem mem_childFiles {f : File} : f ∈ childFiles db scope folderId ↔
    f ∈ db.files.rows ∧ File.ActiveIn f scope.resource ∧ f.folderId = folderId := by
  unfold childFiles File.ActiveIn
  rw [mem_filter, Bool.and_eq_true, Bool.and_eq_true, fileMatchesScope_iff, isNone_iff_eq_none, decide_eq_true_eq]

/-- The live folders and files of a directory, each by id. -/
structure Listing (folders : Folders) (db : Db) (scope : WorkspaceStorageScope) (folderId : Option ℕ) (fs : List Folder)
    (gs : List File) : Prop where
  folders : ∀ f, f ∈ fs ↔ f ∈ folders.rows ∧ f.ActiveIn scope.resource ∧ f.parentId = folderId
  files : ∀ f, f ∈ gs ↔ f ∈ db.files.rows ∧ File.ActiveIn f scope.resource ∧ f.folderId = folderId
  ascendingFolders : fs.Pairwise fun f f' => f.id < f'.id
  ascendingFiles : gs.Pairwise fun f f' => f.id < f'.id

theorem listing_behind : Listing folders db scope folderId (Keyset.behind Folder.id none (childFolders folders scope folderId))
    (Keyset.behind File.id none (childFiles db scope folderId)) := by
  refine ⟨fun f => ?_, fun f => ?_, behind_strict nodup_childFolders, behind_strict nodup_childFiles⟩
  · rw [mem_behind_none]
    exact mem_childFolders
  · rw [mem_behind_none]
    exact mem_childFiles

/-- **A walk through a directory** from no cursor ends, and its pages are the live folders by id and then the live files by
id, each once. -/
theorem walk_complete
    (hdirectory : resolveDirectoryId folders db scope backend normalizeName rootFolderId path = .ok folderId)
    (hledger : Ledger db.files db.histories db.revisions ∅) (hpositive : 1 ≤ maximumEntries)
    (husize : maximumEntries < usizeMax) :
    ∃ pages fs gs,
      (∃ N, ∀ n ≥ N, walk (fun cursor => readDirectoryPage folders db scope backend normalizeName rootFolderId path cursor
        maximumEntries) n none = .ok (some pages)) ∧
      (∀ p ∈ pages, p.entries.length ≤ maximumEntries) ∧
      Listing folders db scope folderId fs gs ∧
      (pages.flatMap DavDirectoryPage.entries).map row = fs.map .inl ++ gs.map .inr := by
  obtain ⟨pages, hwalk, hsizes, hrows⟩ :=
    walk_splits (fun cursor => readDirectoryPage_splits hdirectory hledger hpositive husize cursor) none
  exact ⟨pages, _, _, ⟨_, fun n hn => hwalk n hn⟩, hsizes, listing_behind, hrows⟩

end Walk

end Listing

/-! ### A directory that changes between the pages -/

section Changing

/-- Where an entry is listed: the folders by id, and behind them the files. -/
def place : ℕ ⊕ ℕ → ℕ ×ₗ ℕ := Sum.elim (fun id => toLex (0, id + 1)) fun id => toLex (1, id + 1)

/-- How far a walk has come. -/
def passed : Option AsterDavDirectoryCursor → ℕ ×ₗ ℕ
  | none => toLex (0, 0)
  | some (.folders id) => toLex (0, id + 1)
  | some (.files id) => toLex (1, id + 1)

/-- The id of an entry, and whether it is a folder. -/
def AsterDavDirEntry.entryId (entry : AsterDavDirEntry) : ℕ ⊕ ℕ := entry.row.map Folder.id File.id

/-- The directory has a live entry of this id. -/
def InDirectory (rows : Folders × Db) (scope : WorkspaceStorageScope) (folderId : Option ℕ) : ℕ ⊕ ℕ → Prop
  | .inl id => ∃ f ∈ childFolders rows.1 scope folderId, f.id = id
  | .inr id => ∃ f ∈ childFiles rows.2 scope folderId, f.id = id

/-- The pages of a walk, with the times at which they are read; `read t` reads from the rows of the time `t`. -/
inductive Walked (read : ℕ → Option AsterDavDirectoryCursor → Except DavBackendError DavDirectoryPage) :
    Option AsterDavDirectoryCursor → List (ℕ × DavDirectoryPage) → Prop
  | last {t : ℕ} {cursor : Option AsterDavDirectoryCursor} {page : DavDirectoryPage} (hread : read t cursor = .ok page)
      (hlast : page.nextCursor = none) : Walked read cursor [(t, page)]
  | more {t : ℕ} {cursor : Option AsterDavDirectoryCursor} {page : DavDirectoryPage} {next : AsterDavDirectoryCursor}
      {pages : List (ℕ × DavDirectoryPage)} (hread : read t cursor = .ok page) (hnext : page.nextCursor = some next)
      (hrest : Walked read (some next) pages) : Walked read cursor ((t, page) :: pages)

/-- The ids that are listed on pages. -/
def listedIds (pages : List (ℕ × DavDirectoryPage)) : List (ℕ ⊕ ℕ) := pages.flatMap fun p => p.2.entries.map entryId

variable {folders : Folders} {db : Db} {scope : WorkspaceStorageScope} {folderId : Option ℕ} {maximumEntries : ℕ}
  {cursor : Option AsterDavDirectoryCursor} {id : ℕ ⊕ ℕ}

theorem mem_remaining : id ∈ (remaining folders db scope folderId cursor).map (Sum.map Folder.id File.id) ↔
    InDirectory (folders, db) scope folderId id ∧ passed cursor < place id := by
  rcases cursor with _ | k | k <;> rcases id with i | i <;>
    simp [remaining, exists_mem_behind, InDirectory, passed, place, Prod.Lex.toLex_lt_toLex]

theorem nodup_remaining : ((remaining folders db scope folderId cursor).map (Sum.map Folder.id File.id)).Nodup := by
  have hfolders : ∀ after, (((Keyset.behind Folder.id after (childFolders folders scope folderId)).map .inl).map
      (Sum.map Folder.id File.id)).Nodup := by
    intro after
    have hkeys : ((Keyset.behind Folder.id after (childFolders folders scope folderId)).map Folder.id).Nodup :=
      nodup_behind_keys nodup_childFolders
    have hleft := hkeys.map (Sum.inl_injective (β := ℕ))
    rwa [List.map_map] at hleft ⊢
  have hfiles : ∀ after, (((Keyset.behind File.id after (childFiles db scope folderId)).map .inr).map
      (Sum.map Folder.id File.id)).Nodup := by
    intro after
    have hkeys : ((Keyset.behind File.id after (childFiles db scope folderId)).map File.id).Nodup :=
      nodup_behind_keys nodup_childFiles
    have hright := hkeys.map (Sum.inr_injective (α := ℕ))
    rwa [List.map_map] at hright ⊢
  have hapart : ∀ (fs : List Folder) (gs : List File), List.Disjoint ((fs.map Sum.inl).map (Sum.map Folder.id File.id))
      ((gs.map Sum.inr).map (Sum.map Folder.id File.id)) := by
    intro fs gs
    simp [List.Disjoint]
  rcases cursor with _ | k | k <;> simp only [remaining, map_append]
  · exact (hfolders none).append (hfiles none) (hapart _ _)
  · exact (hfolders (some k)).append (hfiles none) (hapart _ _)
  · exact hfiles (some k)

/-- **The ids of a page**: they lie behind the cursor and not behind the next one, and leave nothing out between the two. -/
theorem Splits.ids {page : DavDirectoryPage} (h : Splits (fun c => remaining folders db scope folderId (some c)) maximumEntries
      (remaining folders db scope folderId cursor) page) :
    (page.entries.map entryId).Nodup ∧
    (∀ id ∈ page.entries.map entryId, InDirectory (folders, db) scope folderId id ∧ passed cursor < place id) ∧
    (∀ next, page.nextCursor = some next → passed cursor ≤ passed (some next) ∧
      ∀ id ∈ page.entries.map entryId, place id ≤ passed (some next)) ∧
    ∀ id, InDirectory (folders, db) scope folderId id → passed cursor < place id →
      id ∈ page.entries.map entryId ∨ ∃ next, page.nextCursor = some next ∧ passed (some next) < place id := by
  have hsplit := congrArg (List.map (Sum.map Folder.id File.id)) h.listed
  rw [map_append, List.map_map] at hsplit
  change page.entries.map entryId ++ _ = _ at hsplit
  have hnodup := @nodup_remaining folders db scope folderId cursor
  rw [← hsplit, nodup_append'] at hnodup
  obtain ⟨hentries, -, hdisjoint⟩ := hnodup
  have hmem : ∀ id ∈ page.entries.map entryId, InDirectory (folders, db) scope folderId id ∧ passed cursor < place id := by
    intro id hid
    refine (mem_remaining).mp ?_
    rw [← hsplit]
    exact mem_append_left _ hid
  refine ⟨hentries, hmem, fun next hnext => ?_, fun id hin hbehind => ?_⟩
  · rw [hnext] at hdisjoint
    -- what lies behind the next cursor is not on this page
    have hleft : ∀ id ∈ page.entries.map entryId, place id ≤ passed (some next) := by
      intro id hid
      by_contra hbehind
      exact hdisjoint hid ((mem_remaining).mpr ⟨(hmem id hid).1, not_le.mp hbehind⟩)
    obtain ⟨entry, hentry⟩ := exists_mem_of_ne_nil _ (h.moves (by rw [hnext]; rfl))
    have hid := List.mem_map_of_mem (f := entryId) hentry
    exact ⟨(hmem _ hid).2.le.trans (hleft _ hid), hleft⟩
  · have hall := (mem_remaining).mpr ⟨hin, hbehind⟩
    rw [← hsplit] at hall
    rcases mem_append.mp hall with hpage | hrest
    · exact .inl hpage
    · cases hnext : page.nextCursor with
      | none =>
        rw [hnext] at hrest
        cases hrest
      | some next =>
        rw [hnext] at hrest
        exact .inr ⟨next, rfl, ((mem_remaining).mp hrest).2⟩

variable {rows : ℕ → Folders × Db} {read : ℕ → Option AsterDavDirectoryCursor → Except DavBackendError DavDirectoryPage}
  {pages : List (ℕ × DavDirectoryPage)}

/-- From any cursor on, a walk lists what lies behind the cursor, each id once, and all that is there all the time. -/
theorem walked_ids (hread : ∀ t cursor, ∃ page, read t cursor = .ok page ∧
      Splits (fun c => remaining (rows t).1 (rows t).2 scope folderId (some c)) maximumEntries
        (remaining (rows t).1 (rows t).2 scope folderId cursor) page)
    (hwalk : Walked read cursor pages) :
    (listedIds pages).Nodup ∧ (∀ id ∈ listedIds pages, passed cursor < place id) ∧
    (∀ p ∈ pages, ∀ id ∈ p.2.entries.map entryId, InDirectory (rows p.1) scope folderId id) ∧
    ∀ id, passed cursor < place id → (∀ p ∈ pages, InDirectory (rows p.1) scope folderId id) →
      id ∈ listedIds pages := by
  induction hwalk with
  | @last t cursor page hpage hlast =>
    obtain ⟨page', hpage', hsplits⟩ := hread t cursor
    obtain rfl := Except.ok.inj (hpage.symm.trans hpage')
    obtain ⟨hnodup, hmem, -, hall⟩ := hsplits.ids
    have hlisted : listedIds [(t, page)] = page.entries.map entryId := flatMap_singleton _ _
    rw [hlisted]
    refine ⟨hnodup, fun id hid => (hmem id hid).2, fun p hp id hid => ?_, fun id hbehind halways => ?_⟩
    · obtain rfl := mem_singleton.mp hp
      exact (hmem id hid).1
    · refine (hall id (halways _ (mem_singleton_self _)) hbehind).resolve_right ?_
      rintro ⟨next, hnext, -⟩
      rw [hlast] at hnext
      cases hnext
  | @more t cursor page next pages hpage hnext _ ih =>
    obtain ⟨page', hpage', hsplits⟩ := hread t cursor
    obtain rfl := Except.ok.inj (hpage.symm.trans hpage')
    obtain ⟨hnodup, hmem, hmoves, hall⟩ := hsplits.ids
    obtain ⟨hle, hleft⟩ := hmoves next hnext
    obtain ⟨hnodup', hbehind', hthere', hall'⟩ := ih
    have hlisted : listedIds ((t, page) :: pages) = page.entries.map entryId ++ listedIds pages := flatMap_cons
    rw [hlisted]
    refine ⟨?_, fun id hid => ?_, fun p hp id hid => ?_, fun id hbehind halways => ?_⟩
    · refine nodup_append'.mpr ⟨hnodup, hnodup', fun id hid hid' => ?_⟩
      exact absurd (hbehind' id hid') (not_lt.mpr (hleft id hid))
    · rcases mem_append.mp hid with hid | hid
      · exact (hmem id hid).2
      · exact lt_of_le_of_lt hle (hbehind' id hid)
    · rcases mem_cons.mp hp with rfl | hp
      · exact (hmem id hid).1
      · exact hthere' p hp id hid
    · rcases hall id (halways _ mem_cons_self) hbehind with hid | ⟨next', hnext', hlater⟩
      · exact mem_append_left _ hid
      · obtain rfl := Option.some.inj (hnext.symm.trans hnext')
        exact mem_append_right _ (hall' id hlater fun p hp => halways p (mem_cons_of_mem _ hp))

/-- **A walk through a changing directory.** Whatever is created, moved or deleted between the pages, no folder and no file
is listed twice, what a page lists is there when it is read, and what is there at every page is listed. -/
theorem walk_while_changing {backend : DbBackend} {normalizeName : String → String} {rootFolderId : Option ℕ} {path : String}
    (hdirectory : ∀ t, resolveDirectoryId (rows t).1 (rows t).2 scope backend normalizeName rootFolderId path = .ok folderId)
    (hledger : ∀ t, Ledger (rows t).2.files (rows t).2.histories (rows t).2.revisions ∅) (hpositive : 1 ≤ maximumEntries)
    (husize : maximumEntries < usizeMax)
    (hwalk : Walked (fun t cursor => readDirectoryPage (rows t).1 (rows t).2 scope backend normalizeName rootFolderId path
      cursor maximumEntries) none pages) :
    (listedIds pages).Nodup ∧
    (∀ p ∈ pages, ∀ id ∈ p.2.entries.map entryId, InDirectory (rows p.1) scope folderId id) ∧
    ∀ id, (∀ p ∈ pages, InDirectory (rows p.1) scope folderId id) → id ∈ listedIds pages := by
  obtain ⟨hnodup, -, hthere, hall⟩ :=
    walked_ids (fun t cursor => readDirectoryPage_splits (hdirectory t) (hledger t) hpositive husize cursor) hwalk
  refine ⟨hnodup, hthere, fun id halways => hall id ?_ halways⟩
  rcases id with id | id
  all_goals simp [passed, place, Prod.Lex.toLex_lt_toLex]

end Changing

/-! ### A directory with two folders and a file -/

def pagedFolders : Folders where
  rows := [⟨2, some 1, none, none, "b", none⟩, ⟨1, some 1, none, none, "a", none⟩, ⟨3, some 1, none, none, "c", some 4⟩]
  unique := by decide
  next := 4
  below := by decide

/-- Pages of two: the folders fill the first one, and the file comes behind them. -/
theorem walk_complete_sample :
    resolveDirectoryId pagedFolders overwrittenDb (.personal 1) .sqlite id none "/" = .ok none ∧ ∃ pages fs gs,
        (∃ N, ∀ n ≥ N, walk (fun cursor => readDirectoryPage pagedFolders overwrittenDb (.personal 1) .sqlite id none "/" cursor
          2) n none = .ok (some pages)) ∧
        (∀ p ∈ pages, p.entries.length ≤ 2) ∧
        Listing pagedFolders overwrittenDb (.personal 1) none fs gs ∧
        (pages.flatMap DavDirectoryPage.entries).map row = fs.map .inl ++ gs.map .inr := by
  have hroot : resolveDirectoryId pagedFolders overwrittenDb (.personal 1) .sqlite id none "/" = .ok none := by decide
  exact ⟨hroot, walk_complete hroot overwritten_ledger (by decide) (by decide)⟩

/-- `pagedFolders` after its first page was read: folder 2 is gone, and folder 4 is new. -/
def laterFolders : Folders where
  rows := [⟨1, some 1, none, none, "a", none⟩, ⟨4, some 1, none, none, "d", none⟩, ⟨3, some 1, none, none, "c", some 4⟩]
  unique := by decide
  next := 5
  below := by decide

def changing (t : ℕ) : Folders × Db := (if t = 0 then pagedFolders else laterFolders, overwrittenDb)

theorem walk_while_changing_sample : ∃ pages, pages.length = 2 ∧ (listedIds pages).Nodup ∧
    (∀ p ∈ pages, ∀ id ∈ p.2.entries.map entryId, InDirectory (changing p.1) (.personal 1) none id) ∧
    ∀ id, (∀ p ∈ pages, InDirectory (changing p.1) (.personal 1) none id) → id ∈ listedIds pages := by
  have hroot : ∀ t, resolveDirectoryId (changing t).1 (changing t).2 (.personal 1) .sqlite id none "/" = .ok none := by
    intro t
    unfold changing
    split_ifs <;> decide
  let read := fun t cursor => readDirectoryPage (changing t).1 (changing t).2 (.personal 1) .sqlite id none "/" cursor 2
  have hsecond : ∃ page, read 1 (some (.folders 2)) = .ok page ∧ page.nextCursor = none := ⟨_, rfl, rfl⟩
  have hfirst : ∃ page, read 0 none = .ok page ∧ page.nextCursor = some (.folders 2) := ⟨_, rfl, rfl⟩
  obtain ⟨first, hread, hnext⟩ := hfirst
  obtain ⟨second, hread', hlast⟩ := hsecond
  have hwalk : Walked read none [(0, first), (1, second)] := .more hread hnext (.last hread' hlast)
  exact ⟨_, rfl, walk_while_changing hroot (fun _ => overwritten_ledger) (by decide) (by decide) hwalk⟩

/-- With the greatest `usize` there is no room for the row too many, and no page is read. -/
theorem walk_refused : ¬ ∀ (folders : Folders) (db : Db) (scope : WorkspaceStorageScope) (backend : DbBackend)
    (normalizeName : String → String) (rootFolderId folderId : Option ℕ) (path : String) (maximumEntries : ℕ),
    resolveDirectoryId folders db scope backend normalizeName rootFolderId path = .ok folderId →
    Ledger db.files db.histories db.revisions ∅ → 1 ≤ maximumEntries → maximumEntries ≤ usizeMax →
    ∃ pages fs gs,
      (∃ N, ∀ n ≥ N, walk (fun cursor => readDirectoryPage folders db scope backend normalizeName rootFolderId path cursor
        maximumEntries) n none = .ok (some pages)) ∧
      (∀ p ∈ pages, p.entries.length ≤ maximumEntries) ∧
      Listing folders db scope folderId fs gs ∧
      (pages.flatMap DavDirectoryPage.entries).map row = fs.map .inl ++ gs.map .inr := by
  intro hall
  have hroot : resolveDirectoryId pagedFolders overwrittenDb (.personal 1) .sqlite id none "/" = .ok none := by decide
  obtain ⟨pages, _, _, ⟨N, hwalk⟩, _⟩ := hall pagedFolders overwrittenDb (.personal 1) .sqlite id none none "/" usizeMax hroot
    overwritten_ledger (by decide) le_rfl
  have hread : readDirectoryPage pagedFolders overwrittenDb (.personal 1) .sqlite id none "/" none usizeMax =
      .error .invalidInput := by
    unfold readDirectoryPage
    rfl
  have hpages := hwalk (N + 1) (Nat.le_succ N)
  unfold walk at hpages
  cases hpages

end AsterDrive.Webdav
