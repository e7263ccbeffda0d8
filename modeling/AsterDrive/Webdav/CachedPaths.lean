import AsterDrive.Files.NameLookups
import AsterDrive.Webdav.PathChains

/-!
# CachedPaths — paths resolved through the cache

`webdav/backend/path_resolver`. What a path was resolved to stays in a cache, and an entry is checked against the rows
before it is used: from the node upwards, by exact names, while a fresh resolution goes downwards and takes a folder before a
file. So an entry for a file outlives a folder that has come to take the name, and that is the only way in which the two differ
(`cachedPaths_agree_iff`).

The digest of a path is a parameter; nothing depends on its being injective.
-/

namespace AsterDrive.Webdav

open Db Files List Option
open Files.NameLookups (liveFiles)

/-- `CachedResolvedNode`. -/
inductive CachedResolvedNode
  | root
  | folder (id : ℕ) (parentId : Option ℕ) (name : String)
  | file (id : ℕ) (folderId : Option ℕ) (name : String)

/-- The two kinds of entries; a parent is kept as its id. -/
structure PathCache where
  nodes : String → Option CachedResolvedNode
  parents : String → Option (Option ℕ)

def PathCache.setNode (c : PathCache) (key : String) (node : Option CachedResolvedNode) : PathCache :=
  { c with nodes := Function.update c.nodes key node }

def PathCache.setParent (c : PathCache) (key : String) (parentId : Option (Option ℕ)) : PathCache :=
  { c with parents := Function.update c.parents key parentId }

def rootCachePart : Option ℕ → String
  | some id => "root:" ++ toString id
  | none => "root:none"

def scopeCachePart : WorkspaceStorageScope → String
  | .personal userId => "personal:" ++ toString userId
  | .team teamId actorUserId => "team:" ++ toString teamId ++ ":actor:" ++ toString actorUserId

/-- `cacheable_node`. -/
def cacheableNode : ResolvedNode → CachedResolvedNode
  | .root => .root
  | .folder folder => .folder folder.id folder.parentId folder.name
  | .file file => .file file.id file.folderId file.name

section

variable (digest : String → String)

def resolvePathCacheKey (scope : WorkspaceStorageScope) (path : String) (rootFolderId : Option ℕ) : String :=
  "webdav_path:" ++ scopeCachePart scope ++ ":" ++ rootCachePart rootFolderId ++ ":" ++ digest path

def resolveParentCacheKey (scope : WorkspaceStorageScope) (path : String) (rootFolderId : Option ℕ) : String :=
  "webdav_parent:" ++ scopeCachePart scope ++ ":" ++ rootCachePart rootFolderId ++ ":" ++ digest path

end

/-! ### The check of an entry -/

/-- `folder_chain_matches_segments`. -/
def folderChainMatchesSegments (chain : List Folder) (rootFolderId : Option ℕ) (segments : List String) : Bool :=
  if chain = [] then false
  else
    let relativeStart := match rootFolderId with
      | some rootId => (chain.findIdx? fun f => f.id = rootId).map (· + 1)
      | none => if chain.head?.all fun f => f.parentId.isSome then none else some 0
    match relativeStart with
    | none => false
    | some start =>
      let relative := chain.drop start
      relative.length = segments.length && (relative.zip segments).all fun x => x.1.name = x.2

/-- `validate_cached_folder_path`. -/
def validateCachedFolderPath (t : Folders) (scope : WorkspaceStorageScope) (rootFolderId : Option ℕ) (folderId : ℕ)
    (segments : List String) : Bool :=
  let chain := findAncestorModels t scope.resource folderId
  if chain = [] ∨ chain.any fun f => f.deletedAt.isSome then false
  else if chain.any fun f => !(ensureFolderResourceScope f scope.resource).toBool then false
  else folderChainMatchesSegments chain rootFolderId segments

/-- `validate_cached_parent`. -/
def validateCachedParent (t : Folders) (scope : WorkspaceStorageScope) (rootFolderId : Option ℕ)
    (parentSegments : List String) : Option ℕ → Bool
  | some parentId => validateCachedFolderPath t scope rootFolderId parentId parentSegments
  | none => rootFolderId.isNone && parentSegments.isEmpty

/-- `load_cached_resolved_node`; without a result the entry is deleted. -/
def loadCachedResolvedNode (t : Tree) (scope : WorkspaceStorageScope) (path : String) (rootFolderId : Option ℕ) :
    CachedResolvedNode → Option ResolvedNode
  | .root => if pathSegments path = [] then some .root else none
  | .folder id parentId name =>
    match findFolderById t.folders id with
    | .error _ => none
    | .ok folder =>
      if folder.deletedAt.isSome ∨ (ensureFolderResourceScope folder scope.resource).toBool = false then none
      else if (pathSegments path).getLast? ≠ some name ∨ folder.name ≠ name ∨ folder.parentId ≠ parentId then none
      else if validateCachedFolderPath t.folders scope rootFolderId id (pathSegments path) then some (.folder folder)
      else none
  | .file id folderId name =>
    match findFileById t.files id with
    | .error _ => none
    | .ok file =>
      if file.deletedAt.isSome ∨ (ensureFileResourceScope file scope.resource).toBool = false then none
      else if (pathSegments path).getLast? ≠ some name ∨ file.name ≠ name ∨ file.folderId ≠ folderId then none
      else if validateCachedParent t.folders scope rootFolderId (pathSegments path).dropLast file.folderId then
        some (.file file)
      else none

/-! ### Resolution through the cache -/

section

variable (backend : DbBackend) (normalizeName digest : String → String)

/-- `resolve_path_cached_in_scope`. -/
def resolvePathCachedInScope (t : Tree) (c : PathCache) (scope : WorkspaceStorageScope) (path : String)
    (rootFolderId : Option ℕ) : Except FsError ResolvedNode × PathCache :=
  let key := resolvePathCacheKey digest scope path rootFolderId
  match (c.nodes key).bind (loadCachedResolvedNode t scope path rootFolderId) with
  | some node => (.ok node, c)
  | none =>
    match resolvePathInScope backend normalizeName t scope rootFolderId path with
    | .ok node => (.ok node, c.setNode key (some (cacheableNode node)))
    | .error e => (.error e, c.setNode key none)

/-- `resolve_parent_cached_in_scope`. -/
def resolveParentCachedInScope (t : Tree) (c : PathCache) (scope : WorkspaceStorageScope) (path : String)
    (rootFolderId : Option ℕ) : Except FsError (Option ℕ × String) × PathCache :=
  let key := resolveParentCacheKey digest scope path rootFolderId
  match (pathSegments path).getLast? with
  | none => (.error .forbidden, c)
  | some last =>
    match (c.parents key).filter (validateCachedParent t.folders scope rootFolderId (pathSegments path).dropLast) with
    | some parentId => (.ok (parentId, last), c)
    | none =>
      match resolveParentInScope backend normalizeName t scope rootFolderId path with
      | .ok (parentId, name) => (.ok (parentId, name), c.setParent key (some parentId))
      | .error e => (.error e, c.setParent key none)

end

/-- Live siblings of one kind have distinct names. -/
structure SiblingsDistinct (t : Tree) : Prop where
  folders : NamesDistinct t.folders
  files : ∀ scope folderId, ((liveFiles t.files scope folderId).map File.name).Nodup

/-- The cache holds a file for the path, its row passes the check, and by now a folder of its parent is found for its name. -/
def Shadowed (backend : DbBackend) (normalizeName digest : String → String) (tree : Tree) (c : PathCache)
    (scope : WorkspaceStorageScope) (path : String) (rootFolderId : Option ℕ) : Prop :=
  ∃ (id : ℕ) (file : File), c.nodes (resolvePathCacheKey digest scope path rootFolderId) =
      some (.file id file.folderId file.name) ∧
    tree.files.get id = some file ∧ file.workspace = some scope.resource ∧ file.deletedAt = none ∧
    (pathSegments path).getLast? = some file.name ∧
    validateCachedParent tree.folders scope rootFolderId (pathSegments path).dropLast file.folderId = true ∧
    (findChildFolder backend normalizeName tree.folders scope file.folderId file.name).isSome

section

variable {backend : DbBackend} {normalizeName digest : String → String} {t : Folders} {scope : WorkspaceStorageScope}
variable {rootFolderId parentId : Option ℕ} {segments : List String} {f : Folder} {chain fs a b : List Folder} {id : ℕ}

/-! ### Folders below one another -/

/-- Each of the folders is a live child of the one before, the first of `parentId`. -/
def Below (t : Folders) (scope : WorkspaceResourceScope) : Option ℕ → List Folder → Prop
  | _, [] => True
  | parentId, f :: fs => f ∈ liveChildren t scope parentId ∧ Below t scope (some f.id) fs

theorem chainEnd_cons : chainEnd parentId (f :: fs) = chainEnd (some f.id) fs := by
  unfold chainEnd
  cases fs with
  | nil => rfl
  | cons g fs => rw [getLast?_cons_cons, getLast?_cons]; rfl

theorem chainEnd_concat : chainEnd parentId (fs ++ [f]) = some f.id := by
  simp [chainEnd]

theorem Below.concat {w : WorkspaceResourceScope} (h : Below t w parentId fs) (hf : f ∈ liveChildren t w (chainEnd parentId fs)) :
    Below t w parentId (fs ++ [f]) := by
  induction fs generalizing parentId with
  | nil => exact ⟨hf, trivial⟩
  | cons g fs ih =>
    rw [chainEnd_cons] at hf
    exact ⟨h.1, ih h.2 hf⟩

theorem Below.get_of_end {w : WorkspaceResourceScope} (h : Below t w parentId (f :: fs))
    (hend : chainEnd parentId (f :: fs) = some id) : (f :: fs).getLast? = t.get id := by
  induction fs generalizing parentId f with
  | nil =>
    obtain rfl : f.id = id := some.inj hend
    exact (Table.get_of_mem (mem_of_mem_filter h.1)).symm
  | cons g fs ih =>
    rw [getLast?_cons_cons]
    exact ih h.2 ((chainEnd_cons).symm.trans hend)

theorem find_of_nodup {α : Type} {name : α → String} {l : List α} {x : α} (h : (l.map name).Nodup) (hx : x ∈ l) :
    (l.find? fun y => name y = name x) = some x := by
  have hfound : (l.find? fun y => name y = name x).isSome := find?_isSome.mpr ⟨x, hx, by simp⟩
  obtain ⟨y, hfind⟩ := isSome_iff_exists.mp hfound
  have hname : name y = name x := by simpa using find?_some hfind
  rwa [inj_on_of_nodup_map h (mem_of_find?_eq_some hfind) hx hname] at hfind

/-- The lookup finds a child by its own name. -/
theorem findChildFolder_child (hdistinct : NamesDistinct t) (hf : f ∈ liveChildren t scope.resource parentId) :
    findChildFolder backend normalizeName t scope parentId f.name = some f := by
  have hexact := find_of_nodup (hdistinct scope.resource parentId) hf
  have hlookup : findFolderByNameInScope normalizeName t scope.resource parentId f.name = some f := by
    rw [findFolderByNameInScope_eq, hexact]
    rfl
  unfold findChildFolder
  split
  on_goal 3 => exact hlookup
  all_goals simpa only [liveChildren, find?_filter, Bool.decide_and, Bool.decide_eq_true] using hexact

theorem resolveFolderChain_below (hdistinct : NamesDistinct t) (h : Below t scope.resource parentId fs) :
    resolveFolderChain backend normalizeName t scope parentId (fs.map Folder.name ++ segments) =
      fs ++ resolveFolderChain backend normalizeName t scope (chainEnd parentId fs) segments := by
  induction fs generalizing parentId with
  | nil => rfl
  | cons f fs ih =>
    rw [map_cons, cons_append, resolveFolderChain, findChildFolder_child hdistinct h.1, chainEnd_cons]
    exact congrArg _ (ih h.2)

theorem resolveFolderChain_names (hdistinct : NamesDistinct t) (h : Below t scope.resource parentId fs)
    (hnames : fs.map Folder.name = segments) :
    resolveFolderChain backend normalizeName t scope parentId segments = fs ∧ fs.length = segments.length := by
  subst hnames
  have happend := @resolveFolderChain_below backend normalizeName t scope parentId [] fs hdistinct h
  rw [append_nil, resolveFolderChain, append_nil] at happend
  exact ⟨happend, (length_map _).symm⟩

/-! ### What the check establishes -/

theorem mem_liveChildren {w : WorkspaceResourceScope} (h : liveFolder t w id = some f) (hscope : f.workspace = some w) :
    f ∈ liveChildren t w f.parentId := by
  have hlive := (Option.filter_eq_some_iff.mp h).2
  simp only [Bool.and_eq_true] at hlive
  simp [liveChildren, Table.mem_of_get (get_of_liveFolder h), folderMatchesScope_iff.mpr hscope, hlive.2]

/-- The upper part of a walk ends where the lower one begins. -/
theorem climb_meets {w : WorkspaceResourceScope} {n : ℕ} {start : Option ℕ} {r : Folder}
    (h : Forest.climb (liveFolder t w) Folder.parentId n start = a ++ r :: b) :
    (a.getLast?.elim start Folder.parentId) = some r.id := by
  induction a generalizing n start with
  | nil =>
    obtain ⟨_, i, rfl, hi, -⟩ := Forest.climb_cons h
    exact congrArg some (Table.key_of_get (get_of_liveFolder hi)).symm
  | cons f a ih =>
    obtain ⟨_, i, rfl, -, hrest⟩ := Forest.climb_cons h
    rw [getLast?_cons]
    cases hlast : a.getLast? <;> simpa [hlast] using ih hrest

/-- A walk whose upper end hangs at `rootFolderId`, downwards. -/
theorem below_of_climb {w : WorkspaceResourceScope} {n : ℕ} {start : Option ℕ}
    (h : Forest.climb (liveFolder t w) Folder.parentId n start = a ++ b)
    (hscope : ∀ x ∈ a, x.workspace = some w) (htop : (a.getLast?.elim start Folder.parentId) = rootFolderId) :
    Below t w rootFolderId a.reverse ∧ chainEnd rootFolderId a.reverse = start := by
  induction a generalizing n start with
  | nil => exact ⟨trivial, htop.symm⟩
  | cons f a ih =>
    obtain ⟨_, i, rfl, hi, hrest⟩ := Forest.climb_cons h
    have htop' : (a.getLast?.elim f.parentId Folder.parentId) = rootFolderId := by
      rw [← htop, getLast?_cons]
      cases a.getLast? <;> rfl
    obtain ⟨hbelow, hend⟩ := ih hrest (fun x hx => hscope x (mem_cons_of_mem _ hx)) htop'
    rw [reverse_cons, chainEnd_concat]
    refine ⟨hbelow.concat ?_, congrArg some (Table.key_of_get (get_of_liveFolder hi))⟩
    rw [hend]
    exact mem_liveChildren hi (hscope f mem_cons_self)

theorem names_of_zip {relative : List Folder} (hlength : relative.length = segments.length)
    (hall : (relative.zip segments).all (fun x => x.1.name = x.2) = true) : relative.map Folder.name = segments := by
  induction relative generalizing segments with
  | nil => exact (length_eq_zero_iff.mp hlength.symm).symm
  | cons f relative ih =>
    cases segments with
    | nil => simp at hlength
    | cons segment segments =>
      simp only [zip_cons_cons, all_cons, Bool.and_eq_true, decide_eq_true_eq] at hall
      rw [map_cons, hall.1, ih (by simpa using hlength) hall.2]

theorem toBool_iff {x : Except AsterError Unit} : x.toBool = true ↔ x = .ok () := by
  cases x <;> simp [Except.toBool]

/-- **An entry that passes the check** names a folder at the end of the segments. -/
theorem validateCachedFolderPath_below (h : validateCachedFolderPath t scope rootFolderId id segments = true) :
    ∃ fs, Below t scope.resource rootFolderId fs ∧ fs.map Folder.name = segments ∧ chainEnd rootFolderId fs = some id := by
  unfold validateCachedFolderPath at h
  dsimp only at h
  split_ifs at h with hlive hscope
  set chain := findAncestorModels t scope.resource id with hchain
  have hscope' : ∀ x ∈ chain, x.workspace = some scope.resource := by
    intro x hx
    by_contra hne
    refine hscope (List.any_eq_true.mpr ⟨x, hx, ?_⟩)
    rw [Bool.not_eq_true']
    exact Bool.eq_false_iff.mpr fun hensure => hne (ensureFolderResourceScope_ok.mp ((toBool_iff).mp hensure))
  have hwalk : Forest.climb (liveFolder t scope.resource) Folder.parentId t.rows.length (some id) = chain.reverse := by
    rw [hchain, findAncestorModels, reverse_reverse]
  -- the lower part of the chain, where its upper end hangs at the root of the mount
  have hbelow : ∀ upper lower : List Folder, chain = upper ++ lower → lower.map Folder.name = segments →
      (lower.head?.elim (some id) Folder.parentId) = rootFolderId →
      ∃ fs, Below t scope.resource rootFolderId fs ∧ fs.map Folder.name = segments ∧ chainEnd rootFolderId fs = some id := by
    intro upper lower happend hnames htop
    rw [happend, reverse_append] at hwalk
    have hlower : ∀ x ∈ lower.reverse, x.workspace = some scope.resource := by
      intro x hx
      exact hscope' x (happend ▸ mem_append_right _ (mem_reverse.mp hx))
    have hlast : lower.reverse.getLast?.elim (some id) Folder.parentId = rootFolderId := by
      rw [getLast?_reverse]
      exact htop
    have hresult := below_of_climb hwalk hlower hlast
    rw [reverse_reverse] at hresult
    exact ⟨lower, hresult.1, hnames, hresult.2⟩
  have hnil : chain ≠ [] := (not_or.mp hlive).1
  unfold folderChainMatchesSegments at h
  rw [if_neg hnil] at h
  dsimp only at h
  split at h
  · cases h
  · rename_i start hstart
    rw [Bool.and_eq_true, decide_eq_true_eq] at h
    refine hbelow (chain.take start) _ (take_append_drop _ _).symm (names_of_zip h.1 h.2) ?_
    cases rootFolderId with
    | none =>
      dsimp only at hstart
      split_ifs at hstart with hhead
      obtain rfl := some.inj hstart
      obtain ⟨f, rest, hcons⟩ := exists_cons_of_ne_nil hnil
      rw [hcons] at hhead ⊢
      simpa using hhead
    | some rootId =>
      obtain ⟨i, hindex, rfl⟩ := map_eq_some_iff.mp hstart
      obtain ⟨hi, hroot, -⟩ := findIdx?_eq_some_iff_getElem.mp hindex
      -- the root of the mount is met right above
      have hsplit : chain = chain.take i ++ chain[i] :: chain.drop (i + 1) := by
        rw [← drop_eq_getElem_cons hi, take_append_drop]
      have hmeets : (((chain.drop (i + 1)).reverse).getLast?.elim (some id) Folder.parentId) = some chain[i].id := by
        refine climb_meets (b := (chain.take i).reverse) (hwalk.trans ?_)
        conv_lhs => rw [hsplit]
        simp
      rw [getLast?_reverse] at hmeets
      rw [hmeets]
      simpa using hroot

theorem validateCachedParent_below (h : validateCachedParent t scope rootFolderId segments parentId = true) :
    ∃ fs, Below t scope.resource rootFolderId fs ∧ fs.map Folder.name = segments ∧ chainEnd rootFolderId fs = parentId := by
  cases parentId with
  | some id => exact validateCachedFolderPath_below h
  | none =>
    simp only [validateCachedParent, Bool.and_eq_true, isNone_iff_eq_none, List.isEmpty_iff] at h
    obtain ⟨rfl, rfl⟩ := h
    exact ⟨[], trivial, rfl, rfl⟩

/-! ### Both ways to a path -/

variable {tree : Tree} {c : PathCache} {path last : String} {node : ResolvedNode} {cached : CachedResolvedNode}

/-- A fresh resolution, once the folders above the last segment are known. -/
theorem resolvePathInScope_below (hdistinct : NamesDistinct tree.folders) (hlast : (pathSegments path).getLast? = some last)
    (hbelow : Below tree.folders scope.resource rootFolderId fs) (hnames : fs.map Folder.name = (pathSegments path).dropLast) :
    resolvePathInScope backend normalizeName tree scope rootFolderId path =
      match findChildFolder backend normalizeName tree.folders scope (chainEnd rootFolderId fs) last with
      | some folder => .ok (.folder folder)
      | none =>
        match findFileByNameInScope normalizeName tree.files scope.resource (chainEnd rootFolderId fs) last with
        | some file => .ok (.file file)
        | none => .error .notFound := by
  have hsegments : pathSegments path = fs.map Folder.name ++ [last] := by
    rw [hnames]
    exact (dropLast_append_getLast? _ hlast).symm
  unfold resolvePathInScope
  dsimp only
  rw [hlast, hsegments, resolveFolderChain_below hdistinct hbelow, resolveFolderChain]
  cases hfind : findChildFolder backend normalizeName tree.folders scope (chainEnd rootFolderId fs) last with
  | none =>
    simp only [append_nil, length_append, length_map, length_singleton, Nat.lt_irrefl, if_false]
    exact if_neg (by omega)
  | some folder => simp [resolveFolderChain]

/-- What an entry that is used says. -/
inductive Loaded (tree : Tree) (scope : WorkspaceStorageScope) (path : String) (rootFolderId : Option ℕ) :
    CachedResolvedNode → ResolvedNode → Prop
  | root (h : pathSegments path = []) : Loaded tree scope path rootFolderId .root .root
  | folder {id : ℕ} {folder : Folder} (hget : tree.folders.get id = some folder)
      (hlast : (pathSegments path).getLast? = some folder.name)
      (hvalid : validateCachedFolderPath tree.folders scope rootFolderId id (pathSegments path) = true) :
      Loaded tree scope path rootFolderId (.folder id folder.parentId folder.name) (.folder folder)
  | file {id : ℕ} {file : File} (hget : tree.files.get id = some file) (hscope : file.workspace = some scope.resource)
      (hlive : file.deletedAt = none) (hlast : (pathSegments path).getLast? = some file.name)
      (hvalid : validateCachedParent tree.folders scope rootFolderId (pathSegments path).dropLast file.folderId = true) :
      Loaded tree scope path rootFolderId (.file id file.folderId file.name) (.file file)

theorem loadCachedResolvedNode_ok (h : loadCachedResolvedNode tree scope path rootFolderId cached = some node) :
    Loaded tree scope path rootFolderId cached node := by
  cases cached with
  | root =>
    obtain ⟨hnil, h⟩ := ite_none_right_eq_some.mp h
    cases h
    exact .root hnil
  | folder id parentId name =>
    simp only [loadCachedResolvedNode] at h
    split at h
    · cases h
    · rename_i folder hfind
      split_ifs at h with hlive hsame hvalid
      cases h
      simp only [not_or, not_not] at hsame
      obtain ⟨hlast, rfl, rfl⟩ := hsame
      exact .folder (findFolderById_ok.mp hfind) hlast hvalid
  | file id folderId name =>
    simp only [loadCachedResolvedNode] at h
    split at h
    · cases h
    · rename_i file hfind
      split_ifs at h with hlive hsame hvalid
      cases h
      simp only [not_or, not_not, Bool.not_eq_false, toBool_iff, Bool.not_eq_true, isSome_eq_false_iff, isNone_iff_eq_none]
        at hlive hsame
      obtain ⟨hlast, rfl, rfl⟩ := hsame
      exact .file (findFileById_ok.mp hfind) (workspace_of_ensure hlive.2) hlive.1 hlast hvalid

theorem Shadowed.loads (h : Shadowed backend normalizeName digest tree c scope path rootFolderId) :
    ∃ file, (c.nodes (resolvePathCacheKey digest scope path rootFolderId)).bind
      (loadCachedResolvedNode tree scope path rootFolderId) = some (.file file) := by
  obtain ⟨id, file, hentry, hget, hscope, hlive, hlast, hvalid, -⟩ := h
  exact ⟨file, by simp [hentry, loadCachedResolvedNode, findFileById, hget, hlive, hlast, hvalid, ensure_of_workspace hscope,
    Except.toBool]⟩

/-- **One path.** The entry agrees with the fresh resolution unless a folder shadows its file. -/
theorem resolvePathCached_agrees_iff (hdistinct : SiblingsDistinct tree) :
    (resolvePathCachedInScope backend normalizeName digest tree c scope path rootFolderId).1 =
        resolvePathInScope backend normalizeName tree scope rootFolderId path ↔
      ¬ Shadowed backend normalizeName digest tree c scope path rootFolderId := by
  have hshadow : ∀ {o}, (c.nodes (resolvePathCacheKey digest scope path rootFolderId)).bind
      (loadCachedResolvedNode tree scope path rootFolderId) = o → (∀ file, o ≠ some (.file file)) →
      ¬ Shadowed backend normalizeName digest tree c scope path rootFolderId := by
    intro o hload hfile hshadowed
    obtain ⟨file, hloads⟩ := hshadowed.loads
    exact hfile file (hload.symm.trans hloads)
  unfold resolvePathCachedInScope
  dsimp only
  cases hload : (c.nodes (resolvePathCacheKey digest scope path rootFolderId)).bind
      (loadCachedResolvedNode tree scope path rootFolderId) with
  | none =>
    refine iff_of_true ?_ (hshadow hload (by simp))
    cases resolvePathInScope backend normalizeName tree scope rootFolderId path <;> rfl
  | some node =>
    obtain ⟨cached, hentry, hload'⟩ := bind_eq_some_iff.mp hload
    cases loadCachedResolvedNode_ok hload' with
    | root hnil =>
      refine iff_of_true ?_ (hshadow hload (by simp))
      simp [resolvePathInScope, hnil]
    | @folder id folder hget hlast hvalid =>
      refine iff_of_true ?_ (hshadow hload (by simp))
      obtain ⟨fs, hbelow, hnames, hend⟩ := validateCachedFolderPath_below hvalid
      obtain ⟨hchain, hlength⟩ := @resolveFolderChain_names backend normalizeName _ _ _ _ _ hdistinct.folders hbelow hnames
      simp only [resolvePathInScope, hlast, hchain, if_pos hlength]
      cases fs with
      | nil => simp [← hnames] at hlast
      | cons f fs =>
        rw [hbelow.get_of_end hend, hget]
        rfl
    | @file id file hget hscope hlive hlast hvalid =>
      obtain ⟨fs, hbelow, hnames, hend⟩ := validateCachedParent_below hvalid
      have hfresh := @resolvePathInScope_below backend normalizeName _ _ _ _ _ _ hdistinct.folders hlast hbelow hnames
      rw [hend] at hfresh
      rw [hfresh]
      cases hfind : findChildFolder backend normalizeName tree.folders scope file.folderId file.name with
      | some folder =>
        refine iff_of_false (by simp) (not_not_intro ⟨id, file, hentry, hget, hscope, hlive, hlast, hvalid, ?_⟩)
        exact Option.isSome_of_eq_some hfind
      | none =>
        have hmem : file ∈ liveFiles tree.files scope.resource file.folderId := by
          simp [liveFiles, Table.mem_of_get hget, fileMatchesScope_iff.mpr hscope, hlive]
        have hfile : findFileByNameInScope normalizeName tree.files scope.resource file.folderId file.name = some file := by
          show ((liveFiles _ _ _).find? _).or _ = _
          rw [find_of_nodup (hdistinct.files _ _) hmem]
          rfl
        refine iff_of_true (by rw [hfile]) ?_
        rintro ⟨id', file', hentry', -, -, -, -, -, hsome⟩
        obtain ⟨-, hfolder, hname⟩ : id = id' ∧ file.folderId = file'.folderId ∧ file.name = file'.name := by
          simpa using hentry.symm.trans hentry'
        rw [← hfolder, ← hname] at hsome
        simp [hfind] at hsome

theorem resolveParentCached_agrees (hdistinct : SiblingsDistinct tree) :
    (resolveParentCachedInScope backend normalizeName digest tree c scope path rootFolderId).1 =
      resolveParentInScope backend normalizeName tree scope rootFolderId path := by
  unfold resolveParentCachedInScope
  dsimp only
  cases hlast : (pathSegments path).getLast? with
  | none => simp [resolveParentInScope, hlast]
  | some last =>
    dsimp only
    split
    · rename_i parentId hparent
      obtain ⟨-, hvalid⟩ := Option.filter_eq_some_iff.mp hparent
      obtain ⟨fs, hbelow, hnames, hend⟩ := validateCachedParent_below hvalid
      obtain ⟨hchain, hlength⟩ := @resolveFolderChain_names backend normalizeName _ _ _ _ _ hdistinct.folders hbelow hnames
      simp only [resolveParentInScope, hlast, hchain, hend, if_neg (not_not_intro hlength)]
    · cases resolveParentInScope backend normalizeName tree scope rootFolderId path <;> rfl

/-- **Cached paths.** Whatever the cache holds, after any resolutions in any states of the rows: a path is resolved through
it as it is without it if and only if no folder shadows a cached file, and parents always are. -/
theorem cachedPaths_agree_iff (hdistinct : SiblingsDistinct tree) (c : PathCache) (scope : WorkspaceStorageScope) (path : String)
    (rootFolderId : Option ℕ) :
    ((resolvePathCachedInScope backend normalizeName digest tree c scope path rootFolderId).1 =
        resolvePathInScope backend normalizeName tree scope rootFolderId path ↔
      ¬ Shadowed backend normalizeName digest tree c scope path rootFolderId) ∧
    (resolveParentCachedInScope backend normalizeName digest tree c scope path rootFolderId).1 =
      resolveParentInScope backend normalizeName tree scope rootFolderId path :=
  ⟨resolvePathCached_agrees_iff hdistinct, resolveParentCached_agrees hdistinct⟩

end

/-- A file in the root, and no folder. -/
def fileAlone : Tree :=
  ⟨⟨⟨[], by decide⟩, 1, by decide⟩, ⟨⟨[⟨1, some 1, none, none, "a", 1, 0, "", 0, none⟩], by decide⟩, 2, by decide⟩⟩

/-- The cache when the file has been looked up. -/
def lookedUp : PathCache :=
  (resolvePathCachedInScope .sqlite id id fileAlone ⟨fun _ => none, fun _ => none⟩ (.personal 1) "/a" none).2

theorem cachedPaths_agree_file : (resolvePathCachedInScope .sqlite id id fileAlone lookedUp (.personal 1) "/a" none).1 =
    resolvePathInScope .sqlite id fileAlone (.personal 1) none "/a" := by
  have hdistinct : SiblingsDistinct fileAlone := by
    refine ⟨fun _ _ => ?_, fun _ _ => ?_⟩
    · exact (show (fileAlone.folders.rows.map Folder.name).Nodup by decide).sublist (filter_sublist.map _)
    · exact (show (fileAlone.files.rows.map File.name).Nodup by decide).sublist (filter_sublist.map _)
  refine (cachedPaths_agree_iff hdistinct lookedUp (.personal 1) "/a" none).1.mpr ?_
  rintro ⟨_, file, -, -, -, -, -, -, hsome⟩
  simp [findChildFolder, fileAlone] at hsome

end AsterDrive.Webdav
