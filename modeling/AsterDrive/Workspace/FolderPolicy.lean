import AsterDrive.Files.Trash

/-!
# Workspace.FolderPolicy — the policy of the nearest folder

An upload takes the policy of the nearest folder that has one. `resolve_effective_folder_policy_id` walks from a folder to
the root and checks that it meets every parent; the walks along the segments of an upload path go down from a base and
keep the hint of the last folder that had a policy. Both find the first policy of one chain (`Chained`).

The checks on the actor, the names and the activity records are parameters or left out.
-/

namespace AsterDrive.Workspace.FolderPolicy

open Db Files Files.Trash List Option Function

/-! ### Folders with a policy -/

/-- `folder::Model` with the column `policy_id`. -/
structure BoundFolder extends Folder where
  policyId : Option ℕ

/-- The folders, and the policies that are bound to them. -/
structure FolderDb where
  folders : Folders
  policyId : ℕ → Option ℕ

def FolderDb.bound (db : FolderDb) (folder : Folder) : BoundFolder := { folder with policyId := db.policyId folder.id }

structure VerifiedFolderPolicyHint where
  policyId : Option ℕ
  deriving DecidableEq

namespace VerifiedFolderPolicyHint

def mergeChild (hint : VerifiedFolderPolicyHint) (child : BoundFolder) : VerifiedFolderPolicyHint :=
  ⟨child.policyId.or hint.policyId⟩

def ofFolder (folder : BoundFolder) : VerifiedFolderPolicyHint := ⟨folder.policyId⟩

end VerifiedFolderPolicyHint

/-! ### Up to the root -/

/-- The loop over the ancestors, the nearest first. -/
def walkAncestors : Option ℕ → Option ℕ → Option ℕ → List BoundFolder → Except AsterError (Option ℕ)
  | _, expectedParentId, closestPolicyId, [] =>
    if expectedParentId.isSome then .error (validationError "folder hierarchy is incomplete") else .ok closestPolicyId
  | expectedChildId, expectedParentId, closestPolicyId, ancestor :: rest =>
    if expectedParentId ≠ some ancestor.id then .error (validationError "folder hierarchy is incomplete")
    else if expectedChildId = some ancestor.id then .error (validationError "folder hierarchy contains a cycle")
    else walkAncestors (some ancestor.id) ancestor.parentId (closestPolicyId.or ancestor.policyId) rest

/-- `ancestors` is what the query returns, the topmost first and the folder itself last. -/
def effectiveFolderPolicyId (folder : BoundFolder) (ancestors : List BoundFolder) : Except AsterError (Option ℕ) :=
  walkAncestors (some folder.id) folder.parentId folder.policyId (ancestors.reverse.drop 1)

def resolveEffectiveFolderPolicyId (db : FolderDb) (scope : WorkspaceStorageScope) (folder : BoundFolder) :
    Except AsterError (Option ℕ) :=
  effectiveFolderPolicyId folder ((findAncestorModels db.folders scope.resource folder.id).map db.bound)

def resolveVerifiedFolderPolicyHint (db : FolderDb) (scope : WorkspaceStorageScope) (folder : BoundFolder) :
    Except AsterError VerifiedFolderPolicyHint :=
  (resolveEffectiveFolderPolicyId db scope folder).map VerifiedFolderPolicyHint.mk

/-! ### Down along a path -/

structure ParsedUploadPath where
  baseFolderId : Option ℕ
  baseFolder : Option VerifiedFolderPolicyHint
  parentSegments : List String
  filename : String

structure ResolvedUploadParent where
  folderId : Option ℕ
  folder : Option VerifiedFolderPolicyHint
  deriving DecidableEq

def mapFolderLookupError (folderId : ℕ) : AsterError → AsterError
  | .recordNotFound _ =>
    folderNotFound ("Folder #" ++ toString folderId ++ " does not exist or has been permanently removed")
  | other => other

section

-- the check on the actor, and the normalization of names
variable (requireScopeAccess : WorkspaceStorageScope → Except AsterError Unit)
variable (normalizeName : String → String) (normalizeValidateName : String → Except AsterError String)

def verifyFolderAccess (db : FolderDb) (scope : WorkspaceStorageScope) (folderId : ℕ) : Except AsterError BoundFolder := do
  requireScopeAccess scope
  let folder ← (findFolderById db.folders folderId).mapError (mapFolderLookupError folderId)
  ensureActiveFolderScope folder scope
  pure (db.bound folder)

def resolveBaseFolder (db : FolderDb) (scope : WorkspaceStorageScope) :
    Option ℕ → Except AsterError (Option VerifiedFolderPolicyHint)
  | none => pure none
  | some folderId => do
    let folder ← verifyFolderAccess requireScopeAccess db scope folderId
    let hint ← resolveVerifiedFolderPolicyHint db scope folder
    pure (some hint)

def parseRelativeUploadPath (db : FolderDb) (scope : WorkspaceStorageScope) (baseFolderId : Option ℕ)
    (relativePath : String) : Except AsterError ParsedUploadPath := do
  let baseFolder ← resolveBaseFolder requireScopeAccess db scope baseFolderId
  let segments := (relativePath.toList.splitOn '/').map String.ofList
  if segments.any (· = "") then .error (validationError "relative_path contains empty path segments")
  else
    match segments.getLast? with
    | none => .error (validationError "relative_path cannot be empty")
    | some last => do
      let filename ← normalizeValidateName last
      let parentSegments ← segments.dropLast.mapM normalizeValidateName
      pure ⟨baseFolderId, baseFolder, parentSegments, filename⟩

/-- The hint one folder further down. -/
def descend (hint : Option VerifiedFolderPolicyHint) (folder : BoundFolder) : VerifiedFolderPolicyHint :=
  match hint with
  | some parentHint => parentHint.mergeChild folder
  | none => .ofFolder folder

def walkExisting (db : FolderDb) (scope : WorkspaceStorageScope) :
    Option ℕ → Option VerifiedFolderPolicyHint → List String → ResolvedUploadParent
  | currentParent, currentFolder, [] => ⟨currentParent, currentFolder⟩
  | currentParent, currentFolder, segment :: rest =>
    match findFolderByNameInScope normalizeName db.folders scope.resource currentParent segment with
    | none => ⟨currentParent, currentFolder⟩
    | some folder => walkExisting db scope (some folder.id) (some (descend currentFolder (db.bound folder))) rest

def resolveExistingUploadParent (db : FolderDb) (scope : WorkspaceStorageScope) (parsed : ParsedUploadPath) :
    ResolvedUploadParent :=
  walkExisting normalizeName db scope parsed.baseFolderId parsed.baseFolder parsed.parentSegments

/-- The row of a folder that an upload path creates. -/
def newFolder (scope : WorkspaceStorageScope) (parentId : Option ℕ) (name : String) (id : ℕ) : Folder :=
  match scope with
  | .personal userId => ⟨id, some userId, none, parentId, name, none⟩
  | .team teamId _ => ⟨id, none, some teamId, parentId, name, none⟩

/-- `create_or_find_by_name_in_parent_with_created`; a conflict is one with the index on live names. -/
def createOrFindByNameInParent (db : FolderDb) (scope : WorkspaceStorageScope) (parentId : Option ℕ) (name : String) :
    Except AsterError (Folder × Bool × FolderDb) :=
  if db.folders.rows.any fun folder =>
      decide (Folder.liveName folder = Folder.liveName (newFolder scope parentId name db.folders.next)) then
    match findFolderByNameInScope normalizeName db.folders scope.resource parentId name with
    | some folder => .ok (folder, false, db)
    | none => .error (internalError "folder insert conflict could not be reloaded")
  else
    .ok (newFolder scope parentId name db.folders.next, true,
      { folders := db.folders.insert (newFolder scope parentId name) fun _ => by cases scope <;> rfl
        policyId := Function.update db.policyId db.folders.next none })

/-- The folder of a segment, if need be a new one. -/
def findOrCreate (db : FolderDb) (scope : WorkspaceStorageScope) (parentId : Option ℕ) (name : String) :
    Except AsterError (Folder × Bool × FolderDb) :=
  match findFolderByNameInScope normalizeName db.folders scope.resource parentId name with
  | some folder => .ok (folder, false, db)
  | none => createOrFindByNameInParent normalizeName db scope parentId name

def ensureSegments (scope : WorkspaceStorageScope) :
    FolderDb → Option ℕ → Option VerifiedFolderPolicyHint → List ℕ → List String →
      Except AsterError ((ResolvedUploadParent × List ℕ) × FolderDb)
  | db, currentParent, currentFolder, created, [] => .ok ((⟨currentParent, currentFolder⟩, created), db)
  | db, currentParent, currentFolder, created, segment :: rest =>
    match findOrCreate normalizeName db scope currentParent segment with
    | .error e => .error e
    | .ok (folder, wasCreated, db) =>
      ensureSegments scope db (some folder.id) (some (descend currentFolder (db.bound folder)))
        (if wasCreated then created ++ [folder.id] else created) rest

def ensureUploadParentPathWithCreated (db : FolderDb) (scope : WorkspaceStorageScope) (parsed : ParsedUploadPath) :
    Except AsterError ((ResolvedUploadParent × List ℕ) × FolderDb) :=
  if parsed.parentSegments = [] then .ok ((⟨parsed.baseFolderId, parsed.baseFolder⟩, []), db)
  else ensureSegments normalizeName scope db parsed.baseFolderId parsed.baseFolder [] parsed.parentSegments

end

/-! ### The walk up checks the chain -/

section Walk

variable {expectedChildId expectedParentId closest policy : Option ℕ} {ancestors : List BoundFolder}

/-- The rows in order, each the parent of the one before, up to one without a parent. -/
abbrev IsChain (chain : List BoundFolder) : Prop :=
  Lineage.Linked (fun f : BoundFolder => f.id) (fun f : BoundFolder => f.parentId) chain

theorem walkAncestors_ok (h : walkAncestors expectedChildId expectedParentId closest ancestors = .ok policy) :
    expectedParentId = ancestors.head?.map (·.id) ∧ IsChain ancestors ∧
      policy = closest.or (ancestors.findSome? BoundFolder.policyId) := by
  induction ancestors generalizing expectedChildId expectedParentId closest with
  | nil =>
    unfold walkAncestors at h
    split_ifs at h with hparent
    cases h
    refine ⟨?_, trivial, ?_⟩
    · simpa using hparent
    · rw [findSome?_nil, or_none]
  | cons ancestor rest ih =>
    unfold walkAncestors at h
    split_ifs at h with hparent hcycle
    obtain ⟨hnext, hchain, hpolicy⟩ := ih h
    refine ⟨not_not.mp hparent, Lineage.linked_cons hnext hchain, ?_⟩
    rw [hpolicy, findSome?_cons]
    cases closest with
    | some p => rfl
    | none =>
      cases ancestor.policyId with
      | some p | none => rfl

theorem walkAncestors_of_chain {folder : BoundFolder} (hchain : IsChain (folder :: ancestors))
    (hnodup : ((folder :: ancestors).map (·.id)).Nodup) :
    walkAncestors (some folder.id) folder.parentId closest ancestors =
      .ok (closest.or (ancestors.findSome? BoundFolder.policyId)) := by
  induction ancestors generalizing folder closest with
  | nil =>
    have hnone : folder.parentId = none := hchain.1
    rw [hnone, findSome?_nil, or_none]
    rfl
  | cons ancestor rest ih =>
    obtain ⟨hparent, hrest⟩ := hchain
    have hparent : folder.parentId = some ancestor.id := hparent
    obtain ⟨hnot, hnodup⟩ := nodup_cons.mp hnodup
    have hne : folder.id ≠ ancestor.id := fun heq =>
      hnot (List.mem_map.mpr ⟨ancestor, mem_cons_self, heq.symm⟩)
    unfold walkAncestors
    rw [if_neg (not_not.mpr hparent), if_neg fun heq => hne (some.inj heq), ih hrest hnodup, findSome?_cons]
    cases closest with
    | some p => rfl
    | none =>
      cases ancestor.policyId with
      | some p | none => rfl

/-- **Only a complete chain gives a policy.** -/
theorem effectiveFolderPolicyId_ok {folder : BoundFolder} (h : effectiveFolderPolicyId folder ancestors = .ok policy) :
    IsChain (folder :: ancestors.reverse.drop 1) ∧
      policy = (folder :: ancestors.reverse.drop 1).findSome? BoundFolder.policyId := by
  obtain ⟨hparent, hchain, hpolicy⟩ := walkAncestors_ok h
  refine ⟨Lineage.linked_cons hparent hchain, ?_⟩
  rw [hpolicy, findSome?_cons]
  cases folder.policyId with
  | some p | none => rfl

end Walk

/-! ### The chain of a folder -/

section Chain

variable {db : FolderDb} {scope : WorkspaceStorageScope} {folderId : Option ℕ} {f : Folder} {chain rest : List Folder}

theorem isChain_bound : IsChain (chain.map db.bound) ↔ Lineage.Linked Folder.id Folder.parentId chain := by
  induction chain with
  | nil => rfl
  | cons f chain ih =>
    show (f.parentId = ((chain.map db.bound).head?.map (·.id)) ∧ IsChain (chain.map db.bound)) ↔ _
    rw [ih]
    have hhead : (chain.map db.bound).head?.map (·.id) = chain.head?.map Folder.id := by
      cases chain with
      | nil | cons g chain => rfl
    rw [hhead]
    rfl

theorem findSome_bound : (chain.map db.bound).findSome? BoundFolder.policyId = chain.findSome? fun f => db.policyId f.id := by
  rw [findSome?_map]
  rfl

theorem findSome_congr {p p' : Folder → Option ℕ} (h : ∀ f ∈ chain, p f = p' f) : chain.findSome? p = chain.findSome? p' := by
  induction chain with
  | nil => rfl
  | cons f chain ih =>
    rw [findSome?_cons, findSome?_cons, h f mem_cons_self, ih fun g hg => h g (mem_cons_of_mem _ hg)]

/-- The walk from a folder to the root, over live folders of the workspace. -/
abbrev LiveChain (db : FolderDb) (scope : WorkspaceStorageScope) (folderId : Option ℕ) (chain : List Folder) : Prop :=
  Lineage.Follows (liveFolder db.folders scope.resource) Folder.parentId folderId chain

theorem liveFolder_id {id : ℕ} (h : liveFolder db.folders scope.resource id = some f) : f.id = id :=
  Table.key_of_get (get_of_liveFolder h)

theorem findAncestorModels_of_chain {id : ℕ} (h : LiveChain db scope (some id) chain) :
    findAncestorModels db.folders scope.resource id = chain.reverse := by
  have hsub : chain ⊆ db.folders.rows := by
    intro f hf
    obtain ⟨j, hj⟩ := h.mem hf
    exact Table.mem_of_get (get_of_liveFolder hj)
  unfold findAncestorModels
  rw [Forest.climb_of_follows h (h.nodup.subperm hsub).length_le]

theorem liveChain_nodup (h : LiveChain db scope folderId chain) : (chain.map Folder.id).Nodup := by
  refine h.nodup.map_on fun f hf g hg heq => ?_
  obtain ⟨j, hj⟩ := h.mem hf
  obtain ⟨k, hk⟩ := h.mem hg
  rw [liveFolder_id hj, liveFolder_id hk] at heq
  rw [heq] at hj
  exact some.inj (hj.symm.trans hk)

theorem resolve_of_chain (h : LiveChain db scope (some f.id) (f :: rest)) :
    resolveVerifiedFolderPolicyHint db scope (db.bound f) = .ok ⟨(f :: rest).findSome? fun f => db.policyId f.id⟩ := by
  have hchain : IsChain ((f :: rest).map db.bound) := (isChain_bound).mpr (h.linked fun _ _ => liveFolder_id).2
  have hnodup : (((f :: rest).map db.bound).map (·.id)).Nodup := by
    rw [List.map_map]
    exact liveChain_nodup h
  unfold resolveVerifiedFolderPolicyHint resolveEffectiveFolderPolicyId effectiveFolderPolicyId
  have hquery : findAncestorModels db.folders scope.resource (db.bound f).id = (f :: rest).reverse :=
    findAncestorModels_of_chain h
  rw [hquery, map_reverse, reverse_reverse, map_cons, drop_one, tail_cons]
  rw [walkAncestors_of_chain hchain hnodup, findSome_bound, findSome?_cons]
  show Except.ok _ = Except.ok _
  refine congrArg _ (congrArg _ ?_)
  show (db.policyId f.id).or _ = _
  cases db.policyId f.id with
  | some p | none => rfl

theorem chain_of_resolve {hint : VerifiedFolderPolicyHint} (hf : db.folders.get f.id = some f)
    (hactive : f.ActiveIn scope.resource) (h : resolveVerifiedFolderPolicyHint db scope (db.bound f) = .ok hint) :
    ∃ rest, LiveChain db scope (some f.id) (f :: rest) ∧ hint = ⟨(f :: rest).findSome? fun f => db.policyId f.id⟩ := by
  have hlive := liveFolder_of_active hf hactive
  obtain ⟨n, hn⟩ : ∃ n, db.folders.rows.length = n + 1 := by
    refine Nat.exists_eq_succ_of_ne_zero fun hzero => ?_
    have hmem := Table.mem_of_get hf
    rw [length_eq_zero_iff.mp hzero] at hmem
    cases hmem
  let rest := Forest.climb (liveFolder db.folders scope.resource) Folder.parentId n f.parentId
  have hquery : findAncestorModels db.folders scope.resource (db.bound f).id = (f :: rest).reverse := by
    show (Forest.climb _ _ db.folders.rows.length (some f.id)).reverse = _
    rw [hn]
    unfold Forest.climb
    simp only [hlive]
    rfl
  unfold resolveVerifiedFolderPolicyHint resolveEffectiveFolderPolicyId at h
  rw [hquery] at h
  cases hpolicy : effectiveFolderPolicyId (db.bound f) ((f :: rest).reverse.map db.bound) with
  | error e =>
    rw [hpolicy] at h
    cases h
  | ok policy =>
    rw [hpolicy] at h
    obtain ⟨hchain, hnearest⟩ := effectiveFolderPolicyId_ok hpolicy
    rw [map_reverse, reverse_reverse, map_cons, drop_one, tail_cons, ← map_cons] at hchain hnearest
    rw [findSome_bound] at hnearest
    have hlook : ∀ g ∈ f :: rest, liveFolder db.folders scope.resource g.id = some g := by
      intro g hg
      have hclimb : g ∈ Forest.climb (liveFolder db.folders scope.resource) Folder.parentId (n + 1) (some f.id) := by
        unfold Forest.climb
        simp only [hlive]
        exact hg
      obtain ⟨j, hj, -⟩ := Forest.mem_climb hclimb
      rw [liveFolder_id hj]
      exact hj
    refine ⟨rest, Lineage.follows_of_linked ((isChain_bound).mp hchain) hlook, ?_⟩
    rw [← hnearest]
    exact (Except.ok.inj h).symm

/-! ### One chain for every route -/

/-- The hint of a folder is the first policy on its way to the root; above the roots there is no hint. -/
def Chained (db : FolderDb) (scope : WorkspaceStorageScope) (folderId : Option ℕ) (hint : Option VerifiedFolderPolicyHint) :
    Prop :=
  match folderId with
  | none => hint = none
  | some id => ∃ chain, LiveChain db scope (some id) chain ∧ hint = some ⟨chain.findSome? fun f => db.policyId f.id⟩

variable {hint : Option VerifiedFolderPolicyHint}

/-- **One folder further down.** -/
theorem Chained.descend (h : Chained db scope folderId hint) (hf : db.folders.get f.id = some f)
    (hactive : f.ActiveIn scope.resource) (hparent : f.parentId = folderId) :
    Chained db scope (some f.id) (some (descend hint (db.bound f))) := by
  have hlive := liveFolder_of_active hf hactive
  cases folderId with
  | none =>
    have hnone : hint = none := h
    refine ⟨[f], .visit hlive (hparent ▸ .stop), ?_⟩
    rw [hnone]
    refine congrArg some (congrArg VerifiedFolderPolicyHint.mk ?_)
    show db.policyId f.id = _
    rw [findSome?_cons]
    cases db.policyId f.id with
    | some p | none => rfl
  | some id =>
    obtain ⟨chain, hchain, rfl⟩ := h
    refine ⟨f :: chain, .visit hlive (hparent ▸ hchain), ?_⟩
    refine congrArg some (congrArg VerifiedFolderPolicyHint.mk ?_)
    show (db.policyId f.id).or _ = _
    rw [findSome?_cons]
    cases db.policyId f.id with
    | some p | none => rfl

/-- What a route is to give: no folder and no hint, or a folder with the hint that the walk up gives for it, the first
policy of its parents and itself. -/
def HintAgrees (db : FolderDb) (scope : WorkspaceStorageScope) (resolved : ResolvedUploadParent) : Prop :=
  match resolved.folderId with
  | none => resolved.folder = none
  | some id => ∃ f rest hint, db.folders.get id = some f ∧
      Lineage.Follows db.folders.get Folder.parentId (some id) (f :: rest) ∧
      resolveVerifiedFolderPolicyHint db scope (db.bound f) = .ok hint ∧ resolved.folder = some hint ∧
      hint.policyId = (f :: rest).findSome? fun f => db.policyId f.id

theorem Chained.agrees (h : Chained db scope folderId hint) : HintAgrees db scope ⟨folderId, hint⟩ := by
  cases folderId with
  | none => exact h
  | some id =>
    obtain ⟨chain, hchain, hhint⟩ := h
    cases hchain with
    | @visit _ f rest hlive hrest =>
      obtain rfl := liveFolder_id hlive
      have hchain : LiveChain db scope (some f.id) (f :: rest) := .visit hlive hrest
      exact ⟨f, rest, _, get_of_liveFolder hlive, hchain.mono fun _ _ => get_of_liveFolder, resolve_of_chain hchain, hhint, rfl⟩

end Chain

/-! ### Routes -/

section Routes

variable {requireScopeAccess : WorkspaceStorageScope → Except AsterError Unit} {normalizeName : String → String}
variable {normalizeValidateName : String → Except AsterError String} {db db' : FolderDb} {scope : WorkspaceStorageScope}
variable {folderId : Option ℕ} {hint : Option VerifiedFolderPolicyHint} {parsed : ParsedUploadPath}

theorem verifyFolderAccess_ok {id : ℕ} {folder : BoundFolder}
    (h : verifyFolderAccess requireScopeAccess db scope id = .ok folder) :
    ∃ f, folder = db.bound f ∧ f.id = id ∧ db.folders.get f.id = some f ∧ f.ActiveIn scope.resource := by
  obtain ⟨⟨⟩, -, h⟩ := bind_ok h
  obtain ⟨f, hfind, h⟩ := bind_ok h
  obtain ⟨⟨⟩, hensure, h⟩ := bind_ok h
  have hget : findFolderById db.folders id = .ok f := by
    cases hrow : findFolderById db.folders id with
    | error e =>
      rw [hrow] at hfind
      cases hfind
    | ok f' =>
      rw [hrow] at hfind
      exact congrArg _ (Except.ok.inj hfind)
  have hget := findFolderById_ok.mp hget
  have hid : f.id = id := Table.key_of_get hget
  exact ⟨f, (Except.ok.inj h).symm, hid, hid.symm ▸ hget, ensureActiveFolderScope_ok.mp hensure⟩

theorem chained_base (h : resolveBaseFolder requireScopeAccess db scope folderId = .ok hint) :
    Chained db scope folderId hint := by
  cases folderId with
  | none => exact (Except.ok.inj h).symm
  | some id =>
    obtain ⟨folder, hverify, h⟩ := bind_ok h
    obtain ⟨baseHint, hresolve, h⟩ := bind_ok h
    cases h
    obtain ⟨f, rfl, rfl, hf, hactive⟩ := verifyFolderAccess_ok hverify
    obtain ⟨rest, hchain, rfl⟩ := chain_of_resolve hf hactive hresolve
    exact ⟨f :: rest, hchain, rfl⟩

theorem chained_parsed {baseFolderId : Option ℕ} {relativePath : String}
    (h : parseRelativeUploadPath requireScopeAccess normalizeValidateName db scope baseFolderId relativePath = .ok parsed) :
    Chained db scope parsed.baseFolderId parsed.baseFolder := by
  obtain ⟨baseFolder, hbase, h⟩ := bind_ok h
  dsimp only at h
  split at h
  · cases h
  · split at h
    · cases h
    · obtain ⟨filename, -, h⟩ := bind_ok h
      obtain ⟨parentSegments, -, h⟩ := bind_ok h
      cases h
      exact chained_base hbase

theorem findFolderByNameInScope_some {f : Folder} {name : String}
    (h : findFolderByNameInScope normalizeName db.folders scope.resource folderId name = some f) :
    db.folders.get f.id = some f ∧ f.ActiveIn scope.resource ∧ f.parentId = folderId := by
  have hmem : f ∈ db.folders.rows.filter fun f =>
      folderMatchesScope f scope.resource && f.deletedAt.isNone && decide (f.parentId = folderId) := by
    rcases or_eq_some_iff.mp h with hexact | ⟨-, hnormal⟩
    · exact mem_of_find?_eq_some hexact
    · exact mem_of_find?_eq_some hnormal
  obtain ⟨hrow, hcond⟩ := mem_filter.mp hmem
  simp only [Bool.and_eq_true, decide_eq_true_eq, isNone_iff_eq_none, folderMatchesScope_iff] at hcond
  exact ⟨Table.get_of_mem hrow, hcond.1, hcond.2⟩

theorem chained_walkExisting (h : Chained db scope folderId hint) (segments : List String) :
    Chained db scope (walkExisting normalizeName db scope folderId hint segments).folderId
      (walkExisting normalizeName db scope folderId hint segments).folder := by
  induction segments generalizing folderId hint with
  | nil => exact h
  | cons segment rest ih =>
    unfold walkExisting
    split
    · exact h
    · rename_i folder hfind
      obtain ⟨hf, hactive, hparent⟩ := findFolderByNameInScope_some hfind
      exact ih (h.descend hf hactive hparent)

theorem Chained.insert (h : Chained db scope folderId hint) {mk : ℕ → Folder} (hmk : ∀ n, (mk n).id = n) :
    Chained ⟨db.folders.insert mk hmk, Function.update db.policyId db.folders.next none⟩ scope folderId hint := by
  cases folderId with
  | none => exact h
  | some id =>
    obtain ⟨chain, hchain, rfl⟩ := h
    have hsub : ∀ k g, liveFolder db.folders scope.resource k = some g →
        liveFolder (db.folders.insert mk hmk) scope.resource k = some g := by
      intro k g hlive
      have hlt := SerialTable.lt_next_of_get (get_of_liveFolder hlive)
      unfold liveFolder
      rw [SerialTable.get_insert, if_neg (by omega)]
      exact hlive
    refine ⟨chain, hchain.mono hsub, congrArg some (congrArg VerifiedFolderPolicyHint.mk ?_)⟩
    refine findSome_congr fun g hg => ?_
    obtain ⟨k, hlive⟩ := hchain.mem hg
    have hlt := SerialTable.lt_next_of_get (get_of_liveFolder hlive)
    rw [liveFolder_id hlive]
    exact (update_of_ne (Nat.ne_of_lt hlt) _ _).symm

theorem newFolder_active (parentId : Option ℕ) (name : String) (id : ℕ) :
    (newFolder scope parentId name id).ActiveIn scope.resource ∧ (newFolder scope parentId name id).parentId = parentId ∧
      (newFolder scope parentId name id).id = id := by
  cases scope with
  | personal userId | team teamId actorUserId => exact ⟨⟨rfl, rfl⟩, rfl, rfl⟩

theorem chained_findOrCreate {name : String} {folder : Folder} {wasCreated : Bool} (h : Chained db scope folderId hint)
    (hfind : findOrCreate normalizeName db scope folderId name = .ok (folder, wasCreated, db')) :
    Chained db' scope (some folder.id) (some (descend hint (db'.bound folder))) ∧ (wasCreated = false → db' = db) := by
  have hexisting : ∀ f, findFolderByNameInScope normalizeName db.folders scope.resource folderId name = some f →
      Chained db scope (some f.id) (some (descend hint (db.bound f))) := by
    intro f hf
    obtain ⟨hget, hactive, hparent⟩ := findFolderByNameInScope_some hf
    exact h.descend hget hactive hparent
  unfold findOrCreate at hfind
  split at hfind
  · rename_i f hf
    obtain ⟨rfl, hpair⟩ := ok_pair_inj hfind
    cases hpair
    exact ⟨hexisting _ hf, fun _ => rfl⟩
  · unfold createOrFindByNameInParent at hfind
    split at hfind
    · split at hfind
      · rename_i f hf
        obtain ⟨rfl, hpair⟩ := ok_pair_inj hfind
        cases hpair
        exact ⟨hexisting _ hf, fun _ => rfl⟩
      · cases hfind
    · obtain ⟨rfl, hpair⟩ := ok_pair_inj hfind
      cases hpair
      have hid : ∀ n, (newFolder scope folderId name n).id = n := fun n => (newFolder_active folderId name n).2.2
      obtain ⟨hactive, hparent, -⟩ := @newFolder_active scope folderId name db.folders.next
      refine ⟨(h.insert hid).descend ?_ hactive hparent, by simp⟩
      show (db.folders.insert (newFolder scope folderId name) hid).get (newFolder scope folderId name db.folders.next).id = _
      rw [hid, SerialTable.get_insert, if_pos rfl]

theorem chained_ensureSegments {segments : List String} {created created' : List ℕ} {resolved : ResolvedUploadParent}
    (h : Chained db scope folderId hint)
    (hensure : ensureSegments normalizeName scope db folderId hint created segments = .ok ((resolved, created'), db')) :
    Chained db' scope resolved.folderId resolved.folder ∧ (created' = created ∨ created'.length > created.length) ∧
      (created' = created → db' = db) := by
  induction segments generalizing db folderId hint created with
  | nil =>
    obtain ⟨hresolved, rfl⟩ := ok_pair_inj hensure
    cases hresolved
    exact ⟨h, .inl rfl, fun _ => rfl⟩
  | cons segment rest ih =>
    unfold ensureSegments at hensure
    split at hensure
    · cases hensure
    · rename_i folder wasCreated db1 hfind
      obtain ⟨hchained, hsame⟩ := chained_findOrCreate h hfind
      obtain ⟨hfinal, hgrown, hkept⟩ := ih hchained hensure
      cases wasCreated with
      | false =>
        obtain rfl := hsame rfl
        exact ⟨hfinal, hgrown, hkept⟩
      | true =>
        have hlonger : created'.length > created.length := by
          have hlength : (if true = true then created ++ [folder.id] else created).length = created.length + 1 := by simp
          rcases hgrown with heq | hgrown
          · rw [heq, hlength]
            omega
          · omega
        refine ⟨hfinal, .inr hlonger, fun heq => ?_⟩
        rw [heq] at hlonger
        exact absurd hlonger (Nat.lt_irrefl _)

/-- A folder with policy 5, and one in it without. -/
def shelves : FolderDb where
  folders :=
    { rows := [⟨1, some 7, none, none, "a", none⟩, ⟨2, some 7, none, some 1, "b", none⟩]
      unique := by decide
      next := 3
      below := by decide }
  policyId := fun id => if id = 1 then some 5 else none

def parsedUpload : ParsedUploadPath := ⟨some 1, some ⟨some 5⟩, ["b", "c"], "f"⟩

end Routes

end AsterDrive.Workspace.FolderPolicy
