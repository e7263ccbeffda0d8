import Mathlib.Data.String.Basic
import AsterDrive.Lib.Batches
import AsterDrive.Webdav.Canonical

/-!
# LockDiscovery — the locks of many paths at once

`discover` and `discover_many` of `webdav/backend/lock.rs`. For one path the rows are those that lie on an ancestor and
overlap. For many paths the ancestors of all of them are merged and looked up in pieces, the rows are grouped by their
path, and every path takes from its own ancestors what overlaps. Only what the batch keeps of a row is left by then: its
path is the one that was read back from the href (`modelToDavLock`).
-/

namespace AsterDrive.Webdav

open Db Files Locks Batches List Option Function

/-! ### Locks as the protocol shows them -/

structure DavLock (Element : Type) where
  token : String
  path : DavPath
  principal : Option String
  owner : Option Element
  timeoutAt : Option ℕ
  timeout : Option ℕ
  shared : Bool
  deep : Bool

/-- What the protocol library does: `davPath` is `DavPath::new` of the encoded href. -/
structure DavLibrary (Element : Type) where
  davPath : String → Option DavPath
  root : DavPath
  deserializeElement : String → Option Element

def lockOwnerXml (lock : ResourceLock) : Option String :=
  match lock.ownerInfo with
  | some (.webdav xml) => some xml
  | _ => none

section

variable {Element : Type} (lib : DavLibrary Element)

def modelToDavLock (now : ℕ) (lock : ResourceLock) : DavLock Element where
  token := lock.token
  path := (lib.davPath lock.path).getD lib.root
  principal := none
  owner := (lockOwnerXml lock).bind lib.deserializeElement
  timeoutAt := lock.timeoutAt.map fun t => now + (t - now)
  timeout := lock.timeoutAt.map fun t => t - now
  shared := lock.mode = .shared
  deep := lock.deep

def findAncestorsInNamespace (d : LockTables) (namespaceId : ℕ) (paths : List String) : List ResourceLock :=
  if paths = [] then []
  else (d.findAllByNamespace namespaceId).filter fun lock => lock.lockrootPath.any fun q => decide (q ∈ paths)

def discoverRows (d : LockTables) (scope : WorkspaceStorageScope) (path : String) (now : ℕ) : List ResourceLock :=
  match d.namespaces.findByWorkspace scope.resource with
  | none => []
  | some ns =>
    (findAncestorsInNamespace d ns.id (pathAncestors path)).filter fun lock =>
      !lock.expired now && lockPathsOverlap lock.path lock.deep path false

def discover (d : LockTables) (scope : WorkspaceStorageScope) (path : DavPath) (now : ℕ) : List (DavLock Element) :=
  (discoverRows d scope (normalizePath path.asStr) now).map (modelToDavLock lib now)

/-! ### Many paths -/

def discoverManyAncestorChunkSize : ℕ := 500

/-- The ancestors of all paths, each once. -/
def allAncestors (paths : List DavPath) : List String :=
  sortDedup (paths.flatMap fun path => pathAncestors (normalizePath path.asStr))

/-- The rows on these paths that have not expired, by id. -/
def locksOn (d : LockTables) (namespaceId : ℕ) (ancestors : List String) (now : ℕ) : List ResourceLock :=
  (((chunks discoverManyAncestorChunkSize ancestors).flatMap (findAncestorsInNamespace d namespaceId)).filter fun lock =>
    !lock.expired now).insertionSort fun a b => a.id ≤ b.id

def locksByPath (now : ℕ) (locks : List ResourceLock) : String → Option (List (DavLock Element)) :=
  locks.foldl (fun (byPath : String → Option (List (DavLock Element))) lock =>
    Function.update byPath lock.path (some ((byPath lock.path).getD [] ++ [modelToDavLock lib now lock]))) fun _ => none

/-- The locks that one path takes from its ancestors. -/
def takeLocks (byPath : String → Option (List (DavLock Element))) (path : DavPath) : List (DavLock Element) :=
  (pathAncestors (normalizePath path.asStr)).flatMap fun ancestor =>
    match byPath ancestor with
    | none => []
    | some locks => locks.filter fun lock => lockPathsOverlap lock.path.asStr lock.deep path.asStr false

/-- `insert` of the result of every path, one after the other. -/
def insertAll (result : DavPath → List (DavLock Element)) (paths : List DavPath) :
    DavPath → Option (List (DavLock Element)) :=
  paths.foldl (fun (found : DavPath → Option (List (DavLock Element))) path =>
    Function.update found path (some (result path))) fun _ => none

def discoverMany (d : LockTables) (scope : WorkspaceStorageScope) (paths : List DavPath) (now : ℕ) :
    DavPath → Option (List (DavLock Element)) :=
  match d.namespaces.findByWorkspace scope.resource with
  | none => insertAll (fun _ => []) paths
  | some ns => insertAll (takeLocks (locksByPath lib now (locksOn d ns.id (allAncestors paths) now))) paths

end

/-! ### Ancestors -/

theorem collectionsFrom_longer (current : String) (segments : List String) :
    (current :: collectionsFrom current segments).Pairwise fun a b => a.length < b.length := by
  induction segments generalizing current with
  | nil => exact pairwise_singleton _ _
  | cons segment rest ih =>
    have hlt : current.length < (current ++ segment ++ "/").length := by
      have hslash : "/".length = 1 := rfl
      rw [String.length_append, String.length_append, hslash]
      omega
    have ih := ih (current ++ segment ++ "/")
    refine pairwise_cons.mpr ⟨fun b hb => ?_, ih⟩
    rcases mem_cons.mp hb with rfl | hrest
    · exact hlt
    · exact hlt.trans ((pairwise_cons.mp ih).1 b hrest)

theorem nodup_pathAncestors (path : String) : (pathAncestors path).Nodup := by
  have hcollections : ("/" :: collectionsFrom "/" (pathSegments path)).Nodup := by
    refine (collectionsFrom_longer _ _).imp fun hlt heq => ?_
    rw [heq] at hlt
    exact Nat.lt_irrefl _ hlt
  unfold pathAncestors
  split_ifs with hfile
  · refine nodup_append.mpr ⟨hcollections, nodup_singleton _, fun a ha b hb heq => ?_⟩
    obtain rfl : a = path := heq.trans (mem_singleton.mp hb)
    have hroot : a ∈ Place.text (.collection []) :: collectionsFrom (Place.text (.collection [])) (pathSegments a) := by
      exact ha
    rcases mem_cons.mp hroot with hsame | hmem
    · exact hfile.1 (hsame.trans Place.root_text.symm)
    · obtain ⟨zs, -, -, htext⟩ := Place.mem_collectionsFrom.mp hmem
      rw [htext] at hfile
      exact hfile.2 (Place.endsWithSlash_collection _)
  · rw [append_nil]
    exact hcollections

theorem normalizePath_of_ne {path : String} (h : path ≠ "") : normalizePath path = path := if_neg h

/-! ### One path and many -/

section Discovery

variable {Element : Type} {lib : DavLibrary Element} {d : LockTables} {scope : WorkspaceStorageScope}
variable {namespaceId now : ℕ} {paths : List DavPath} {path : DavPath} {locks : List ResourceLock}

/-- The row lies on one of the paths. -/
def liesOn (paths : List String) (lock : ResourceLock) : Bool := lock.lockrootPath.any fun q => decide (q ∈ paths)

theorem liesOn_iff {ancestors : List String} {lock : ResourceLock} :
    liesOn ancestors lock ↔ ∃ q ∈ ancestors, lock.lockrootPath = some q := by
  unfold liesOn
  cases lock.lockrootPath with
  | none | some q => simp

theorem findAncestorsInNamespace_eq (ancestors : List String) :
    findAncestorsInNamespace d namespaceId ancestors = (d.findAllByNamespace namespaceId).filter (liesOn ancestors) := by
  unfold findAncestorsInNamespace
  split_ifs with hnil
  · refine (filter_eq_nil_iff.mpr fun lock _ hon => ?_).symm
    obtain ⟨q, hq, -⟩ := (liesOn_iff).mp hon
    rw [hnil] at hq
    cases hq
  · rfl

theorem locksOn_perm {ancestors : List String} (hnodup : ancestors.Nodup) : (locksOn d namespaceId ancestors now).Perm
      ((d.findAllByNamespace namespaceId).filter fun lock => liesOn ancestors lock && !lock.expired now) := by
  have hpieces : (chunks discoverManyAncestorChunkSize ancestors).Pairwise fun c c' =>
      ∀ lock ∈ d.findAllByNamespace namespaceId, liesOn c lock → ¬ liesOn c' lock := by
    have hflat : (chunks discoverManyAncestorChunkSize ancestors).flatten.Nodup := by
      rw [flatten_chunks]
      exact hnodup
    refine (nodup_flatten.mp hflat).2.imp fun hdisjoint lock _ hon hon' => ?_
    obtain ⟨q, hq, hroot⟩ := (liesOn_iff).mp hon
    obtain ⟨q', hq', hroot'⟩ := (liesOn_iff).mp hon'
    obtain rfl := some.inj (hroot.symm.trans hroot')
    exact hdisjoint hq hq'
  have hany : ∀ lock : ResourceLock,
      ((chunks discoverManyAncestorChunkSize ancestors).any fun c => liesOn c lock) = liesOn ancestors lock := by
    intro lock
    rw [Bool.eq_iff_iff, List.any_eq_true, liesOn_iff]
    constructor
    · rintro ⟨c, hc, hon⟩
      obtain ⟨q, hq, hroot⟩ := (liesOn_iff).mp hon
      refine ⟨q, ?_, hroot⟩
      rw [← @flatten_chunks _ discoverManyAncestorChunkSize ancestors]
      exact mem_flatten_of_mem hc hq
    · rintro ⟨q, hq, hroot⟩
      rw [← @flatten_chunks _ discoverManyAncestorChunkSize ancestors] at hq
      obtain ⟨c, hc, hq⟩ := mem_flatten.mp hq
      exact ⟨c, hc, (liesOn_iff).mpr ⟨q, hq, hroot⟩⟩
  have hfound : ((chunks discoverManyAncestorChunkSize ancestors).flatMap (findAncestorsInNamespace d namespaceId)).Perm
      ((d.findAllByNamespace namespaceId).filter (liesOn ancestors)) := by
    have h := flatMap_filter_perm hpieces
    simp only [hany] at h
    rw [funext (@findAncestorsInNamespace_eq d namespaceId)]
    exact h
  refine (perm_insertionSort _ _).trans ((hfound.filter _).trans ?_)
  rw [List.filter_filter]
  refine Perm.of_eq (filter_congr fun lock _ => ?_)
  rw [Bool.and_comm]

theorem locksByPath_getD (ancestor : String) : (locksByPath lib now locks ancestor).getD [] =
      (locks.filter fun lock => lock.path = ancestor).map (modelToDavLock lib now) := by
  unfold locksByPath
  induction locks using List.reverseRecOn with
  | nil => rfl
  | append_singleton locks lock ih =>
    rw [foldl_append, filter_append, map_append]
    dsimp only [foldl_cons, foldl_nil]
    by_cases hpath : lock.path = ancestor
    · subst hpath
      rw [update_self, getD_some, ih]
      simp
    · rw [update_of_ne (fun h => hpath h.symm), ih]
      simp [hpath]

theorem takeLocks_eq (byPath : String → Option (List (DavLock Element))) (path : DavPath) :
    takeLocks byPath path = (pathAncestors (normalizePath path.asStr)).flatMap fun ancestor =>
      ((byPath ancestor).getD []).filter fun lock => lockPathsOverlap lock.path.asStr lock.deep path.asStr false := by
  unfold takeLocks
  congr 1
  funext ancestor
  cases byPath ancestor with
  | none | some locks => rfl

theorem takeLocks_perm (hpath : path.asStr ≠ "")
    (hroots : ∀ lock ∈ locks, (modelToDavLock lib now lock).path.asStr = lock.path) :
    (takeLocks (locksByPath lib now locks) path).Perm
      ((locks.filter fun lock => decide (lock.path ∈ pathAncestors path.asStr) &&
        lockPathsOverlap lock.path lock.deep path.asStr false).map (modelToDavLock lib now)) := by
  have hone : ∀ ancestor : String, ((locksByPath lib now locks ancestor).getD []).filter (fun lock =>
      lockPathsOverlap lock.path.asStr lock.deep path.asStr false) =
        (locks.filter fun lock => decide (lock.path = ancestor) &&
          lockPathsOverlap lock.path lock.deep path.asStr false).map (modelToDavLock lib now) := by
    intro ancestor
    rw [locksByPath_getD, List.filter_map, List.filter_filter]
    refine congrArg _ (filter_congr fun lock hlock => ?_)
    rw [comp_apply, hroots lock hlock, Bool.and_comm]
    rfl
  have hselect : (pathAncestors path.asStr).Pairwise fun a a' => ∀ lock ∈ locks,
      (decide (lock.path = a) && lockPathsOverlap lock.path lock.deep path.asStr false) →
        ¬ (decide (lock.path = a') && lockPathsOverlap lock.path lock.deep path.asStr false) := by
    refine (nodup_pathAncestors path.asStr).imp fun hne lock _ h h' => ?_
    simp only [Bool.and_eq_true, decide_eq_true_eq] at h h'
    exact hne (h.1.symm.trans h'.1)
  rw [takeLocks_eq, normalizePath_of_ne hpath, funext hone, ← map_flatMap]
  refine (flatMap_filter_perm hselect).map _ |>.trans (Perm.of_eq (congrArg _ (filter_congr fun lock _ => ?_)))
  rw [Bool.eq_iff_iff, List.any_eq_true]
  simp only [Bool.and_eq_true, decide_eq_true_eq]
  exact ⟨fun ⟨a, ha, hsame, hover⟩ => ⟨hsame ▸ ha, hover⟩, fun ⟨hmem, hover⟩ => ⟨_, hmem, rfl, hover⟩⟩

theorem insertAll_of_mem (result : DavPath → List (DavLock Element)) (hmem : path ∈ paths) :
    insertAll result paths path = some (result path) := by
  unfold insertAll
  induction paths using List.reverseRecOn with
  | nil => cases hmem
  | append_singleton paths last ih =>
    rw [foldl_append]
    dsimp only [foldl_cons, foldl_nil]
    by_cases hlast : path = last
    · rw [hlast, update_self]
    · rw [update_of_ne hlast]
      refine ih ?_
      rcases mem_append.mp hmem with hold | hnew
      · exact hold
      · exact absurd (mem_singleton.mp hnew) hlast

theorem takenRows_eq {ancestors : List String} {path : String} (hsub : ∀ q ∈ pathAncestors path, q ∈ ancestors) :
    (((d.findAllByNamespace namespaceId).filter fun lock => liesOn ancestors lock && !lock.expired now).filter fun lock =>
      decide (lock.path ∈ pathAncestors path) && lockPathsOverlap lock.path lock.deep path false) =
        (findAncestorsInNamespace d namespaceId (pathAncestors path)).filter fun lock =>
          !lock.expired now && lockPathsOverlap lock.path lock.deep path false := by
  rw [findAncestorsInNamespace_eq, List.filter_filter, List.filter_filter]
  refine filter_congr fun lock _ => ?_
  rw [Bool.eq_iff_iff]
  simp only [Bool.and_eq_true, decide_eq_true_eq, liesOn_iff]
  constructor
  · rintro ⟨⟨hmem, hover⟩, ⟨q, -, hroot⟩, hlive⟩
    have hpath : lock.path = q := by simp [ResourceLock.path, hroot]
    exact ⟨⟨hlive, hover⟩, q, hpath ▸ hmem, hroot⟩
  · rintro ⟨⟨hlive, hover⟩, q, hq, hroot⟩
    have hpath : lock.path = q := by simp [ResourceLock.path, hroot]
    exact ⟨⟨hpath ▸ hq, hover⟩, ⟨q, hsub q hq, hroot⟩, hlive⟩

/-- **A batch finds for each of its paths what the path finds alone**: the same locks, each once. `hroots` is what the
protocol library says about normal forms, and `hpaths` that it has no empty path. -/
theorem discoverMany_agrees (hroots : ∀ lock ∈ d.locks.rows, ∀ q, lock.lockrootPath = some q →
      (lib.davPath q).map DavPath.asStr = some q)
    (hpaths : ∀ path ∈ paths, path.asStr ≠ "") (hmem : path ∈ paths) :
    ∃ found, discoverMany lib d scope paths now path = some found ∧ found.Perm (discover lib d scope path now) ∧
      discover lib d scope path now = (discoverRows d scope path.asStr now).map (modelToDavLock lib now) ∧
        (discoverRows d scope path.asStr now).Nodup := by
  have hpath := hpaths path hmem
  have hnodup : d.locks.rows.Nodup := Nodup.of_map _ d.locks.unique
  unfold discover discoverMany discoverRows
  rw [normalizePath_of_ne hpath]
  cases hns : d.namespaces.findByWorkspace scope.resource with
  | none => exact ⟨[], insertAll_of_mem _ hmem, .nil, rfl, nodup_nil⟩
  | some ns =>
    have hperm := @locksOn_perm d ns.id now (allAncestors paths) nodup_sortDedup
    have hsub : ∀ q ∈ pathAncestors path.asStr, q ∈ allAncestors paths := by
      intro q hq
      refine mem_sortDedup.mpr (mem_flatMap.mpr ⟨path, hmem, ?_⟩)
      rw [normalizePath_of_ne hpath]
      exact hq
    have hread : ∀ lock ∈ locksOn d ns.id (allAncestors paths) now,
        (modelToDavLock lib now lock).path.asStr = lock.path := by
      intro lock hlock
      obtain ⟨hrow, hon⟩ := mem_filter.mp (hperm.mem_iff.mp hlock)
      obtain ⟨q, -, hroot⟩ := liesOn_iff.mp (Bool.and_eq_true_iff.mp hon).1
      obtain ⟨p, hp, htext⟩ := map_eq_some_iff.mp (hroots lock (mem_filter.mp hrow).1 q hroot)
      simp [modelToDavLock, ResourceLock.path, hroot, hp, htext]
    refine ⟨_, insertAll_of_mem _ hmem, (takeLocks_perm hpath hread).trans ?_, rfl, ?_⟩ <;> dsimp only
    · rw [← takenRows_eq hsub]
      exact (hperm.filter _).map _
    · rw [findAncestorsInNamespace_eq]
      exact ((hnodup.filter _).filter _).filter _

end Discovery

/-! ### A folder and a file

A deep lock on the folder, one on the file that lies in it, and one on the file that has expired. -/

def pathLock (id : ℕ) (path : String) (depth : LockDepth) (timeoutAt : Option ℕ) : ResourceLock :=
  ⟨id, "t" ++ toString id, 1, .workspaceRoot, depth, .exclusive, .webDav, some 7, none, timeoutAt, some path⟩

def davNamespace : ResourceLockNamespace := ⟨1, .personal 7, 0⟩

def lockedFolder : LockTables where
  namespaces := { rows := [davNamespace], unique := by decide, next := 2, below := by decide, oneEach := by decide }
  locks :=
    { rows := [pathLock 1 "/a/" .infinity none, pathLock 2 "/a/b" .resource (some 9), pathLock 3 "/a/b" .resource (some 3)]
      unique := by decide
      next := 4
      below := by decide }
  owned := fun l hl => by
    have hone : ∀ l ∈ [pathLock 1 "/a/" .infinity none, pathLock 2 "/a/b" .resource (some 9),
        pathLock 3 "/a/b" .resource (some 3)], l.namespaceId = 1 := by decide
    rw [hone l hl]
    exact ⟨davNamespace, by decide⟩

def folderPath : DavPath := ⟨"/a/", ["/"]⟩

def filePath : DavPath := ⟨"/a/b", ["/a/", "/"]⟩

def textLibrary : DavLibrary String where
  davPath := fun text => [folderPath, filePath].find? fun path => path.asStr = text
  root := ⟨"/", []⟩
  deserializeElement := some

theorem discoverMany_agrees_folder : (discover textLibrary lockedFolder (.personal 7) filePath 5).map DavLock.token =
      ["t1", "t2"] ∧
    ∃ found, discoverMany textLibrary lockedFolder (.personal 7) [folderPath, filePath] 5 filePath = some found ∧
      found.Perm (discover textLibrary lockedFolder (.personal 7) filePath 5) := by
  have hroots : ∀ lock ∈ lockedFolder.locks.rows, ∀ q ∈ lock.lockrootPath,
      (textLibrary.davPath q).map DavPath.asStr = some q := by decide
  obtain ⟨found, hfound, hperm, -⟩ := @discoverMany_agrees _ textLibrary lockedFolder (.personal 7) 5
    [folderPath, filePath] filePath hroots (by decide) (by decide)
  exact ⟨by decide, found, hfound, hperm⟩

end AsterDrive.Webdav
