import AsterDrive.Webdav.PathResolver

/-!
# PathChains — the three ways from a path to its folders

`folder_repo/path.rs`. Outside MySQL the folders of a personal path come from one recursive query, which joins the
segments on equal names. On MySQL, and for teams everywhere, they are looked up one after the other, and a lookup that finds
no folder of the exact name takes one whose normalized name is that of the segment. The query has no such fallback, so it
stops where the lookups go on: the ways agree exactly where no segment of the path needs it (`pathChains_alike_iff`).

The rows of a table stand in the order in which the children of a folder are listed.
-/

namespace AsterDrive.Webdav

open Db Files List Option Function

/-- The folders in one parent that are not in the trash. -/
def liveChildren (t : Folders) (scope : WorkspaceResourceScope) (parentId : Option ℕ) : List Folder :=
  t.rows.filter fun f => folderMatchesScope f scope && f.deletedAt.isNone && decide (f.parentId = parentId)

/-- `build_resolve_path_chain_query`: level by level, each row of a level joined with the folders that have the next segment
as their name. -/
def chainQuery (t : Folders) (userId : ℕ) : List (Option ℕ) → List String → List Folder
  | _, [] => []
  | parents, segment :: rest =>
    let rows := parents.flatMap fun parentId =>
      (liveChildren t (.personal userId) parentId).filter fun f => f.name = segment
    rows ++ chainQuery t userId (rows.map fun f => some f.id) rest

section

variable (backend : DbBackend) (normalizeName : String → String)

/-- `resolve_path_chain_iteratively`. -/
def resolvePathChainIteratively (t : Folders) (userId : ℕ) : Option ℕ → List String → List Folder :=
  resolveFolderChain .mySql normalizeName t (.personal userId)

/-- `resolve_path_chain`. -/
def resolvePathChain (t : Folders) (userId : ℕ) (rootParentId : Option ℕ) (segments : List String) : List Folder :=
  if segments = [] then []
  else match backend with
    | .mySql => resolvePathChainIteratively normalizeName t userId rootParentId segments
    | .sqlite | .postgres => chainQuery t userId [rootParentId] segments

/-- Live siblings have distinct names. -/
def NamesDistinct (t : Folders) : Prop := ∀ scope parentId, ((liveChildren t scope parentId).map Folder.name).Nodup

/-- The tree of a user and that of a team are the same, up to the ids. -/
def SameTree (t : Folders) (userId teamId : ℕ) (φ : ℕ → ℕ) : Prop :=
  ∀ parentId, (liveChildren t (.personal userId) parentId).map (fun f => (φ f.id, f.name)) =
    (liveChildren t (.team teamId) (parentId.map φ)).map fun f => (f.id, f.name)

/-- One folder for each of the first segments, each in the one before. -/
def Matched (find : Option ℕ → String → Option Folder) : Option ℕ → List String → List Folder → Prop
  | _, _, [] => True
  | _, [], _ :: _ => False
  | parentId, segment :: rest, f :: folders => find parentId segment = some f ∧ Matched find (some f.id) rest folders

/-- The longest prefix of the segments that can be matched step by step. -/
def LongestMatch (find : Option ℕ → String → Option Folder) (parentId : Option ℕ) (segments : List String)
    (folders : List Folder) : Prop :=
  Matched find parentId segments folders ∧ ∀ others, Matched find parentId segments others → others <+: folders

/-- All of them find the same folders, and these are the longest match of `find_by_name_in_parent`. -/
structure ResolvesAlike (t : Folders) (userId teamId actorId : ℕ) (φ : ℕ → ℕ) (rootParentId : Option ℕ)
    (segments : List String) : Prop where
  backends : resolvePathChain backend normalizeName t userId rootParentId segments =
    resolvePathChainIteratively normalizeName t userId rootParentId segments
  teams : (resolveFolderChain backend normalizeName t (.team teamId actorId) (rootParentId.map φ) segments).map Folder.id =
    (resolvePathChain backend normalizeName t userId rootParentId segments).map fun f => φ f.id
  personal : LongestMatch (findFolderByNameInScope normalizeName t (.personal userId)) rootParentId segments
    (resolvePathChain backend normalizeName t userId rootParentId segments)
  team : LongestMatch (findFolderByNameInScope normalizeName t (.team teamId)) (rootParentId.map φ) segments
    (resolveFolderChain backend normalizeName t (.team teamId actorId) (rootParentId.map φ) segments)

/-- No segment needs the normalized names: along the folders of the exact names, up to the first segment without one, and that
segment is not the normalized name of any folder either. -/
def ExactPath (t : Folders) (userId : ℕ) : Option ℕ → List String → Prop
  | _, [] => True
  | parentId, segment :: rest =>
    match (liveChildren t (.personal userId) parentId).find? fun f => f.name = segment with
    | some f => ExactPath t userId (some f.id) rest
    | none => ∀ f ∈ liveChildren t (.personal userId) parentId, normalizeName f.name ≠ normalizeName segment

end

section

variable {backend : DbBackend} {normalizeName : String → String} {t : Folders} {userId teamId actorId : ℕ} {φ : ℕ → ℕ}
variable {parentId : Option ℕ} {segment : String} {rest segments : List String}

/-! ### The recursive query -/

theorem filter_eq_find {α : Type} {l : List α} {name : α → String} (h : (l.map name).Nodup) (x : String) :
    (l.filter fun a => name a = x) = (l.find? fun a => name a = x).toList := by
  induction l with
  | nil => rfl
  | cons a l ih =>
    obtain ⟨hnew, hrest⟩ := nodup_cons.mp h
    by_cases hx : name a = x
    · have hnone : (l.filter fun b => name b = x) = [] := by
        refine filter_eq_nil_iff.mpr fun b hb hbx => hnew ?_
        have hbx : name b = x := by simpa using hbx
        exact List.mem_map.mpr ⟨b, hb, hbx.trans hx.symm⟩
      simp [hx, hnone]
    · simp [hx, ih hrest]

theorem chainQuery_nil : chainQuery t userId [] segments = [] := by
  induction segments with
  | nil => rfl
  | cons segment rest ih => simpa [chainQuery] using ih

theorem chainQuery_cons (hdistinct : NamesDistinct t) : chainQuery t userId [parentId] (segment :: rest) =
      match (liveChildren t (.personal userId) parentId).find? fun f => f.name = segment with
      | some f => f :: chainQuery t userId [some f.id] rest
      | none => [] := by
  have hrows := filter_eq_find (hdistinct (.personal userId) parentId) segment
  rw [chainQuery]
  simp only [flatMap_cons, flatMap_nil, append_nil, hrows]
  cases (liveChildren t (.personal userId) parentId).find? fun f => f.name = segment with
  | none => simpa using chainQuery_nil
  | some f => rfl

/-! ### The lookups -/

theorem findFolderByNameInScope_eq {scope : WorkspaceResourceScope} {name : String} :
    findFolderByNameInScope normalizeName t scope parentId name =
      ((liveChildren t scope parentId).find? fun f => f.name = name).or
        ((liveChildren t scope parentId).find? fun f => normalizeName f.name = normalizeName name) := rfl

theorem resolveFolderChain_cons {scope : WorkspaceStorageScope} (h : backend = .mySql ∨ ∃ teamId actorId, scope = .team teamId actorId) :
    resolveFolderChain backend normalizeName t scope parentId (segment :: rest) =
      match findFolderByNameInScope normalizeName t scope.resource parentId segment with
      | none => []
      | some folder => folder :: resolveFolderChain backend normalizeName t scope (some folder.id) rest := by
  have hfind : findChildFolder backend normalizeName t scope parentId segment =
      findFolderByNameInScope normalizeName t scope.resource parentId segment := by
    rcases h with rfl | ⟨teamId, actorId, rfl⟩
    · cases scope <;> rfl
    · rfl
  rw [← hfind]
  rfl

theorem resolveFolderChain_longest {scope : WorkspaceStorageScope}
    (h : backend = .mySql ∨ ∃ teamId actorId, scope = .team teamId actorId) :
    LongestMatch (findFolderByNameInScope normalizeName t scope.resource) parentId segments
      (resolveFolderChain backend normalizeName t scope parentId segments) := by
  induction segments generalizing parentId with
  | nil =>
    refine ⟨trivial, fun others hothers => ?_⟩
    cases others with
    | nil => exact nil_prefix
    | cons => exact absurd hothers id
  | cons segment rest ih =>
    rw [resolveFolderChain_cons h]
    cases hfind : findFolderByNameInScope normalizeName t scope.resource parentId segment with
    | none =>
      refine ⟨trivial, fun others hothers => ?_⟩
      cases others with
      | nil => exact nil_prefix
      | cons g others => exact absurd (hfind.symm.trans hothers.1) (by simp)
    | some f =>
      obtain ⟨hmatched, hlongest⟩ := @ih (some f.id)
      refine ⟨⟨hfind, hmatched⟩, fun others hothers => ?_⟩
      cases others with
      | nil => exact nil_prefix
      | cons g others =>
        obtain ⟨hg, hothers⟩ := hothers
        obtain rfl : f = g := some.inj (hfind.symm.trans hg)
        exact cons_prefix_cons.mpr ⟨rfl, hlongest others hothers⟩

/-- The lookup in the team finds the folder that corresponds. -/
theorem find_corresponds (hsame : SameTree t userId teamId φ) :
    (findFolderByNameInScope normalizeName t (.team teamId) (parentId.map φ) segment).map Folder.id =
      (findFolderByNameInScope normalizeName t (.personal userId) parentId segment).map fun f => φ f.id := by
  have hmap : ∀ p : String → Bool,
      ((liveChildren t (.team teamId) (parentId.map φ)).find? fun f => p f.name).map (fun f => (f.id, f.name)) =
        ((liveChildren t (.personal userId) parentId).find? fun f => p f.name).map fun f => (φ f.id, f.name) := by
    intro p
    have hteam : ((liveChildren t (.team teamId) (parentId.map φ)).map fun f => (f.id, f.name)).find? (fun x => p x.2) =
        ((liveChildren t (.team teamId) (parentId.map φ)).find? fun f => p f.name).map fun f => (f.id, f.name) :=
      find?_map ..
    have hpersonal : ((liveChildren t (.personal userId) parentId).map fun f => (φ f.id, f.name)).find? (fun x => p x.2) =
        ((liveChildren t (.personal userId) parentId).find? fun f => p f.name).map fun f => (φ f.id, f.name) :=
      find?_map ..
    rw [hsame parentId] at hpersonal
    exact hteam.symm.trans hpersonal
  have hids : ∀ p : String → Bool,
      ((liveChildren t (.team teamId) (parentId.map φ)).find? fun f => p f.name).map Folder.id =
        ((liveChildren t (.personal userId) parentId).find? fun f => p f.name).map fun f => φ f.id := by
    intro p
    simpa [comp_def] using congrArg (Option.map Prod.fst) (hmap p)
  rw [findFolderByNameInScope_eq, findFolderByNameInScope_eq, map_or, map_or]
  exact congrArg₂ Option.or (hids fun name => name = segment) (hids fun name => normalizeName name = normalizeName segment)

theorem chain_corresponds (hsame : SameTree t userId teamId φ) :
    (resolveFolderChain backend normalizeName t (.team teamId actorId) (parentId.map φ) segments).map Folder.id =
      (resolvePathChainIteratively normalizeName t userId parentId segments).map fun f => φ f.id := by
  unfold resolvePathChainIteratively
  induction segments generalizing parentId with
  | nil => rfl
  | cons segment rest ih =>
    rw [resolveFolderChain_cons (.inr ⟨_, _, rfl⟩), resolveFolderChain_cons (.inl rfl)]
    have hfind := @find_corresponds normalizeName t userId teamId φ parentId segment hsame
    have hscope : (WorkspaceStorageScope.team teamId actorId).resource = .team teamId := rfl
    have hscope' : (WorkspaceStorageScope.personal userId).resource = .personal userId := rfl
    rw [hscope, hscope']
    cases hpersonal : findFolderByNameInScope normalizeName t (.personal userId) parentId segment with
    | none =>
      rw [hpersonal, map_none, map_eq_none_iff] at hfind
      rw [hfind]
      rfl
    | some f =>
      rw [hpersonal] at hfind
      obtain ⟨g, hg, hid⟩ := map_eq_some_iff.mp hfind
      rw [hg]
      simp only [map_cons, hid]
      exact congrArg _ (@ih (some f.id))

/-! ### Where they agree -/

theorem chainQuery_eq_iff (hdistinct : NamesDistinct t) :
    chainQuery t userId [parentId] segments = resolvePathChainIteratively normalizeName t userId parentId segments ↔
      ExactPath normalizeName t userId parentId segments := by
  unfold resolvePathChainIteratively
  induction segments generalizing parentId with
  | nil => exact ⟨fun _ => trivial, fun _ => rfl⟩
  | cons segment rest ih =>
    rw [chainQuery_cons hdistinct, resolveFolderChain_cons (.inl rfl), ExactPath]
    have hscope : (WorkspaceStorageScope.personal userId).resource = .personal userId := rfl
    rw [hscope, findFolderByNameInScope_eq]
    cases (liveChildren t (.personal userId) parentId).find? fun f => f.name = segment with
    | some f => simpa using @ih (some f.id)
    | none =>
      cases hfind : (liveChildren t (.personal userId) parentId).find? fun f =>
          normalizeName f.name = normalizeName segment with
      | none => simpa using hfind
      | some f =>
        have hf := mem_of_find?_eq_some hfind
        have hname : normalizeName f.name = normalizeName segment := by simpa using find?_some hfind
        refine ⟨fun h => absurd h (by simp), fun h => absurd hname (h f hf)⟩

/-- **Path chains.** Where live siblings have distinct names, the recursive query finds what the lookups find, in personal
workspaces and for teams, if and only if no segment needs the normalized names. -/
theorem pathChains_alike_iff (hdistinct : NamesDistinct t) (hsame : SameTree t userId teamId φ) (hbackend : backend ≠ .mySql) :
    ResolvesAlike backend normalizeName t userId teamId actorId φ parentId segments ↔
      ExactPath normalizeName t userId parentId segments := by
  have hquery : resolvePathChain backend normalizeName t userId parentId segments = chainQuery t userId [parentId] segments := by
    cases segments with
    | nil => rfl
    | cons segment rest =>
      cases backend with
      | mySql => exact absurd rfl hbackend
      | sqlite | postgres => rfl
  rw [← chainQuery_eq_iff hdistinct]
  refine ⟨fun h => hquery.symm.trans h.backends, fun h => ?_⟩
  have hsame' := hquery.trans h
  have hlongest := @resolveFolderChain_longest .mySql normalizeName t parentId segments (.personal userId) (.inl rfl)
  exact {
    backends := hsame'
    teams := by rw [hsame']; exact chain_corresponds hsame
    personal := by rw [hsame']; exact hlongest
    team := resolveFolderChain_longest (.inr ⟨_, _, rfl⟩) }

end

/-! ### A name in two forms -/

/-- The composed form of a decomposed letter. -/
def composed (name : String) : String := if name = "e\u0301" then "\u00e9" else name

/-- The folder of a user and the folder of a team, both of the composed name. -/
def accentedFolders : Folders :=
  ⟨⟨[⟨1, some 1, none, none, "\u00e9", none⟩, ⟨2, none, some 7, none, "\u00e9", none⟩], by decide⟩, 3, by decide⟩

theorem accented_distinct : NamesDistinct accentedFolders := by
  intro scope parentId
  have hlength : (liveChildren accentedFolders scope parentId).length ≤ 1 := by
    cases scope with
    | personal userId | team teamId =>
      simp only [liveChildren, accentedFolders, folderMatchesScope, filter_cons, filter_nil]
      split_ifs <;> simp_all
  generalize liveChildren accentedFolders scope parentId = children at hlength ⊢
  rcases children with _ | ⟨f, _ | ⟨g, rest⟩⟩
  · exact nodup_nil
  · exact nodup_singleton _
  · simp at hlength

theorem accented_same : SameTree accentedFolders 1 7 (· + 1) := by
  intro parentId
  cases parentId with
  | none => decide
  | some p => simp [liveChildren, accentedFolders]

/-- The composed segment is found by all. -/
theorem pathChains_alike_composed : ResolvesAlike .postgres composed accentedFolders 1 7 1 (· + 1) none ["\u00e9"] := by
  refine (pathChains_alike_iff accented_distinct accented_same (by simp)).mpr ?_
  have hfind : (liveChildren accentedFolders (.personal 1) none).find? (fun f => f.name = "\u00e9") =
      some ⟨1, some 1, none, none, "\u00e9", none⟩ := by decide
  trivial

/-- The decomposed segment is found by the lookups only. -/
theorem pathChains_differ : ¬ ∀ (t : Folders) (userId teamId actorId : ℕ) (φ : ℕ → ℕ) (segments : List String),
      NamesDistinct t → SameTree t userId teamId φ →
        ResolvesAlike .postgres composed t userId teamId actorId φ none segments := by
  intro hall
  have hsame := (hall accentedFolders 1 7 1 (· + 1) ["e\u0301"] accented_distinct accented_same).backends
  exact absurd hsame (by decide)

end AsterDrive.Webdav
