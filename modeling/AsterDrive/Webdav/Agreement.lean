import AsterDrive.Webdav.Canonical

/-!
# Agreement — the two lock evaluators on one request

The protocol decides by paths (`check`, `revalidateMutationLocks`), the writer transactions decide by
identity (`enforceFileMutationOn`, `enforceFolderMutationOn`). Where every lock of the workspace carries
the canonical path of its root, and the request the canonical path of its resource, both look at the same
locks. They do not ask for the same tokens: the protocol wants one token for each lock root, the writers
want one for each lock.
-/

namespace AsterDrive.Webdav

open Db Files Locks List Option

/-! ### Resolution of canonical paths -/

section

variable {backend : DbBackend} {normalizeName : String → String} {t : Tree} {scope : WorkspaceStorageScope}
variable {mount node : Option ℕ} {names rest : List String} {f : Folder}

theorem findChildFolder_exact (hn : Named t scope.resource) (hf : f ∈ t.folders.rows)
    (hact : f.ActiveIn scope.resource) :
    findChildFolder backend normalizeName t.folders scope f.parentId f.name = some f := by
  have hmatch : folderMatchesScope f scope.resource = true := folderMatchesScope_iff.mpr hact.1
  have hsame : ∀ g ∈ t.folders.rows, folderMatchesScope g scope.resource = true → g.deletedAt.isNone = true →
      g.parentId = f.parentId → g.name = f.name → g = f := by
    intro g hg hscope hlive hparent hname
    have hgact : g.ActiveIn scope.resource := ⟨folderMatchesScope_iff.mp hscope, isNone_iff_eq_none.mp hlive⟩
    exact Table.eq_of_key hg hf (hn.folders g hg f hf hgact hact hparent hname)
  have hexact : (t.folders.rows.find? fun g => folderMatchesScope g scope.resource && g.deletedAt.isNone &&
      decide (g.parentId = f.parentId) && decide (g.name = f.name)) = some f := by
    cases hfind : t.folders.rows.find? _ with
    | none =>
      have := find?_eq_none.mp hfind f hf
      simp [hmatch, hact.2] at this
    | some g =>
      have hg := mem_of_find?_eq_some hfind
      have hprop := find?_some hfind
      simp only [Bool.and_eq_true, decide_eq_true_eq] at hprop
      rw [hsame g hg hprop.1.1.1 hprop.1.1.2 hprop.1.2 hprop.2]
  have hscoped : findFolderByNameInScope normalizeName t.folders scope.resource f.parentId f.name = some f := by
    unfold findFolderByNameInScope
    have hfirst : ((t.folders.rows.filter fun g => folderMatchesScope g scope.resource && g.deletedAt.isNone &&
        decide (g.parentId = f.parentId)).find? fun g => g.name = f.name) = some f := by
      rw [find?_filter]
      simpa only [Bool.decide_and, Bool.decide_eq_true] using hexact
    simp only [hfirst, some_or]
  unfold findChildFolder
  split
  · exact hexact
  · exact hexact
  · exact hscoped

theorem resolveFolderChain_at (hn : Named t scope.resource) (h : FolderAt t.folders scope.resource mount node names) :
    ∃ chain, chain.length = names.length ∧
      resolveFolderChain backend normalizeName t.folders scope mount (names ++ rest) =
        chain ++ resolveFolderChain backend normalizeName t.folders scope node rest := by
  induction h generalizing rest with
  | mount => exact ⟨[], rfl, rfl⟩
  | @child parent names f h hf hact hparent ih =>
    obtain ⟨chain, hlen, hchain⟩ := @ih (f.name :: rest)
    refine ⟨chain ++ [f], by simp [hlen], ?_⟩
    have hnext : resolveFolderChain backend normalizeName t.folders scope parent (f.name :: rest) =
        f :: resolveFolderChain backend normalizeName t.folders scope (some f.id) rest := by
      rw [resolveFolderChain, ← hparent, findChildFolder_exact hn hf hact]
    rw [append_assoc, singleton_append, hchain, hnext, append_assoc, singleton_append]

theorem no_folder_at {file : File} {ys : List String} {y : String} (hn : Named t scope.resource)
    (hvalid : (Place.file ys y).Valid)
    (hres : resolvePathInScope backend normalizeName t scope mount (Place.file ys y).text = .ok (.file file)) :
    ¬ FolderAt t.folders scope.resource mount node (ys ++ [y]) := by
  intro hat
  have hseg : pathSegments (Place.file ys y).text = ys ++ [y] := by
    rw [Place.pathSegments_text hvalid]
    simp [Place.last, Place.names, hvalid.2.1]
  obtain ⟨chain, hlen, hchain⟩ := @resolveFolderChain_at backend normalizeName t scope mount node (ys ++ [y]) [] hn hat
  rw [append_nil] at hchain
  have hnil : resolveFolderChain backend normalizeName t.folders scope node [] = [] := by
    rw [resolveFolderChain]
  rw [hnil, append_nil] at hchain
  unfold resolvePathInScope at hres
  simp only [hseg, hchain, getLast?_append, getLast?_singleton, some_or, hlen] at hres
  cases hlast : chain.getLast? with
  | none | some g => simp [hlast] at hres

theorem mem_findChildFolder {parent : Option ℕ} {name : String}
    (h : findChildFolder backend normalizeName t.folders scope parent name = some f) :
    f ∈ t.folders.rows ∧ f.ActiveIn scope.resource := by
  have hactive : ∀ g : Folder, folderMatchesScope g scope.resource = true → g.deletedAt.isNone = true →
      g.ActiveIn scope.resource := fun g hscope hlive =>
    ⟨folderMatchesScope_iff.mp hscope, isNone_iff_eq_none.mp hlive⟩
  have hexact : ∀ {n : String}, (t.folders.rows.find? fun g => folderMatchesScope g scope.resource &&
      g.deletedAt.isNone && decide (g.parentId = parent) && decide (g.name = n)) = some f →
        f ∈ t.folders.rows ∧ f.ActiveIn scope.resource := by
    intro n hfind
    have hprop := find?_some hfind
    simp only [Bool.and_eq_true] at hprop
    exact ⟨mem_of_find?_eq_some hfind, hactive f hprop.1.1.1 hprop.1.1.2⟩
  have hscoped : findFolderByNameInScope normalizeName t.folders scope.resource parent name = some f →
      f ∈ t.folders.rows ∧ f.ActiveIn scope.resource := by
    intro hfind
    have hmem : f ∈ t.folders.rows.filter fun g => folderMatchesScope g scope.resource &&
        g.deletedAt.isNone && decide (g.parentId = parent) := by
      rcases or_eq_some_iff.mp hfind with hfirst | ⟨-, hsecond⟩
      · exact mem_of_find?_eq_some hfirst
      · exact mem_of_find?_eq_some hsecond
    obtain ⟨hrow, hprop⟩ := mem_filter.mp hmem
    simp only [Bool.and_eq_true] at hprop
    exact ⟨hrow, hactive f hprop.1.1 hprop.1.2⟩
  unfold findChildFolder at h
  split at h
  · exact hexact h
  · exact hexact h
  · exact hscoped h

theorem mem_resolveFolderChain {segments : List String}
    (h : f ∈ resolveFolderChain backend normalizeName t.folders scope mount segments) :
    f ∈ t.folders.rows ∧ f.ActiveIn scope.resource := by
  induction segments generalizing mount with
  | nil => simp [resolveFolderChain] at h
  | cons s rest ih =>
    rw [resolveFolderChain] at h
    cases hfind : findChildFolder backend normalizeName t.folders scope mount s with
    | none => simp [hfind] at h
    | some g =>
      simp only [hfind, mem_cons] at h
      rcases h with rfl | h
      · exact mem_findChildFolder hfind
      · exact ih h

theorem mem_findFileByNameInScope {folderId : Option ℕ} {name : String} {x : File} {w : WorkspaceResourceScope}
    (h : findFileByNameInScope normalizeName t.files w folderId name = some x) :
    x ∈ t.files.rows ∧ File.ActiveIn x w ∧ x.folderId = folderId := by
  have hmem : x ∈ t.files.rows.filter fun g => fileMatchesScope g w && g.deletedAt.isNone &&
      decide (g.folderId = folderId) := by
    rcases or_eq_some_iff.mp h with hfirst | ⟨-, hsecond⟩
    · exact mem_of_find?_eq_some hfirst
    · exact mem_of_find?_eq_some hsecond
  obtain ⟨hrow, hprop⟩ := mem_filter.mp hmem
  simp only [Bool.and_eq_true, decide_eq_true_eq] at hprop
  exact ⟨hrow, ⟨fileMatchesScope_iff.mp hprop.1.1, isNone_iff_eq_none.mp hprop.1.2⟩, hprop.2⟩

/-- What the segments of a path name is a row of the workspace that is not in the trash. -/
theorem resolvePathInScope_file {path : String} {x : File}
    (h : resolvePathInScope backend normalizeName t scope mount path = .ok (.file x)) :
    x ∈ t.files.rows ∧ File.ActiveIn x scope.resource := by
  unfold resolvePathInScope at h
  cases hlast : (pathSegments path).getLast? with
  | none => simp [hlast] at h
  | some last =>
    simp only [hlast] at h
    split_ifs at h
    · cases hf : (resolveFolderChain backend normalizeName t.folders scope mount (pathSegments path)).getLast? with
      | none | some g => simp [hf] at h
    · split at h
      · rename_i file hfile
        cases h
        exact ⟨(mem_findFileByNameInScope hfile).1, (mem_findFileByNameInScope hfile).2.1⟩
      · cases h

theorem resolvePathInScope_folder {path : String} {g : Folder}
    (h : resolvePathInScope backend normalizeName t scope mount path = .ok (.folder g)) :
    g ∈ t.folders.rows ∧ g.ActiveIn scope.resource := by
  unfold resolvePathInScope at h
  cases hlast : (pathSegments path).getLast? with
  | none => simp [hlast] at h
  | some last =>
    simp only [hlast] at h
    split_ifs at h
    · cases hf : (resolveFolderChain backend normalizeName t.folders scope mount (pathSegments path)).getLast? with
      | none => simp [hf] at h
      | some k =>
        simp only [hf, elim_some] at h
        cases h
        exact mem_resolveFolderChain (mem_of_getLast? hf)
    · split at h <;> simp at h

end

/-! ### The two questions -/

section

variable (db : LockDb) (w : WorkspaceResourceScope) (now : ℕ)

/-- The locks of the workspace that have not expired. -/
def Active (l : ResourceLock) : Prop :=
  l ∈ db.locks.rows ∧ db.workspaceOf l.namespaceId = some w ∧ l.expired now = false

/-- The locks that the protocol counts against a path. -/
def OnPath (path : String) (deep : Bool) (l : ResourceLock) : Prop :=
  Active db w now l ∧ ∃ q, l.lockrootPath = some q ∧ reaches q l.deep path deep true

/-- A row of the workspace that is not in the trash. -/
def LiveIn (t : Tree) (w : WorkspaceResourceScope) : LockRoot → Prop
  | .workspaceRoot => False
  | .folder i => ∃ f, t.folders.get i = some f ∧ f.ActiveIn w
  | .file i => ∃ f, t.files.get i = some f ∧ File.ActiveIn f w

/-- What a mutation of `r` touches: the resource, and if it is deep whatever is live below. -/
def Affected (t : Tree) (w : WorkspaceResourceScope) (r : LockRoot) (deep : Bool) (r' : LockRoot) : Prop :=
  r' = r ∨ deep ∧ LiveIn t w r' ∧ Over t r r'

/-- The locks that the writers count against a mutation of `r`. -/
def OnResource (r : LockRoot) (deep : Bool) (l : ResourceLock) : Prop :=
  Active db w now l ∧ ∃ r', Affected db.tree w r deep r' ∧ Covers db.tree l r'

/-- The writer's evaluator on one resource. The workspace root has no row: it is mutated through its
membership. -/
def enforceOn (credentials : SubmittedLockCredentials) (depth : LockDepth) : LockRoot → Prop
  | .workspaceRoot => ∃ db', enforceCollectionMembershipMutationOn db w none credentials now = .ok db'
  | .folder i => ∃ f r, db.tree.folders.get i = some f ∧ enforceFolderMutationOn db f depth credentials now = .ok r
  | .file i => ∃ f r, db.tree.files.get i = some f ∧ enforceFileMutationOn db f credentials now = .ok r

/-- The writer's evaluator on everything that the mutation touches. -/
def identityAccepts (r : LockRoot) (deep : Bool) (tokens : List String) : Prop :=
  ∀ r', Affected db.tree w r deep r' →
    enforceOn db w now { holderUserId := none, tokens } (if deep then .infinity else .resource) r'

/-- The resource behind a resolved path. -/
def resolvedRoot (mount : Option ℕ) : ResolvedNode → LockRoot
  | .root => rootOf mount
  | .folder f => .folder f.id
  | .file f => .file f.id

end

/-! ### The protocol's side -/

section

variable {db : LockDb} {w : WorkspaceResourceScope} {now : ℕ} {l : ResourceLock} {path : String} {deep : Bool}
variable {tokens : List String} {ns : ResourceLockNamespace}

theorem mem_overlappingLocks {d : LockTables} {n : ℕ} {withPrefix : Bool} :
    l ∈ overlappingLocks d n path deep withPrefix ↔ l ∈ d.locks.rows ∧ l.namespaceId = n ∧
      ∃ q, l.lockrootPath = some q ∧ reaches q l.deep path deep withPrefix := by
  unfold overlappingLocks
  rw [mem_filter, LockTables.mem_findAllByNamespace, and_assoc]
  refine and_congr_right fun _ => and_congr_right fun _ => ?_
  cases hq : l.lockrootPath with
  | none => simp
  | some q => simp [ResourceLock.path, hq, reaches]

/-- Whether the rows are also looked up by their beginning makes no difference for a shallow request. -/
theorem reaches_fetch {a : Place} {qd : Bool} (ha : a.Valid) :
    reaches a.text qd path deep deep ↔ reaches a.text qd path deep true := by
  cases deep with
  | true => exact Iff.rfl
  | false =>
    unfold reaches
    simp only [Bool.false_and, Bool.or_false, Bool.true_and, Bool.and_eq_true, Bool.or_eq_true, decide_eq_true_eq]
    refine and_congr_left fun hoverlap => ⟨Or.inl, ?_⟩
    rintro (hmem | hstart)
    · exact hmem
    · rcases lockPathsOverlap_iff.mp hoverlap with rfl | ⟨hup, -⟩ | ⟨-, hfalse⟩
      · exact Place.text_mem_pathAncestors ha
      · obtain ⟨hne, hback⟩ := pathIsAncestor_imp hup
        exact absurd (startsWith_antisymm hstart hback).symm hne
      · cases hfalse

/-- The protocol asks for one token for each path that a lock on the request is presented at. -/
def pathSatisfied (db : LockDb) (w : WorkspaceResourceScope) (now : ℕ) (path : String) (deep : Bool)
    (tokens : List String) : Prop :=
  ∀ l, OnPath db w now path deep l → ∃ c, OnPath db w now path deep c ∧ c.path = l.path ∧ c.token ∈ tokens

theorem rootsSatisfied_iff (hns : db.namespaces.findByWorkspace w = some ns) :
    RootsSatisfied (fun _ => tokens) now (findOverlappingLocks db.toLockTables ns.id path deep) ↔
      pathSatisfied db w now path deep tokens := by
  obtain ⟨hget, hw⟩ := Namespaces.findByWorkspace_eq_some hns
  have hmem : ∀ l : ResourceLock, l.expired now = false →
      (l ∈ findOverlappingLocks db.toLockTables ns.id path deep ↔ OnPath db w now path deep l) := by
    intro l hlive
    have hspace : db.workspaceOf l.namespaceId = some w ↔ l.namespaceId = ns.id := by
      constructor
      · intro h
        rw [← hw] at h
        exact namespace_eq_of_workspaceOf hget h
      · intro h
        simp [LockTables.workspaceOf, h, hget, hw]
    rw [findOverlappingLocks, mem_overlappingLocks, OnPath, Active, hspace]
    simp only [hlive, and_true, and_assoc]
  constructor
  · intro h l hl
    obtain ⟨c, hc, hpath, hlive, htoken⟩ := h l ((hmem l hl.1.2.2).mpr hl) hl.1.2.2
    exact ⟨c, (hmem c hlive).mp hc, hpath, htoken⟩
  · intro h l hl hlive
    obtain ⟨c, hc, hpath, htoken⟩ := h l ((hmem l hlive).mp hl)
    exact ⟨c, (hmem c hc.1.2.2).mpr hc, hpath, hc.1.2.2, htoken⟩

theorem revalidateMutationLocks_ok (hns : db.namespaces.findByWorkspace w = some ns) :
    revalidateMutationLocks db.toLockTables ns.id path deep (fun _ => tokens) now = .ok () ↔
      pathSatisfied db w now (normalizePath path) deep tokens := by
  unfold revalidateMutationLocks
  rw [requireSatisfied_ok]
  exact rootsSatisfied_iff hns

/-- Every lock of the workspace that has not expired is presented at the place of its root. -/
def PathsCanonical (db : LockDb) (w : WorkspaceResourceScope) (mount : Option ℕ) (now : ℕ) : Prop :=
  ∀ l, Active db w now l → ∃ a, At db.tree w mount l.root a ∧ l.lockrootPath = some a.text

theorem check_ok {scope : WorkspaceStorageScope} {mount : Option ℕ} (hn : Named db.tree scope.resource)
    (hpaths : PathsCanonical db scope.resource mount now) :
    check db.toLockTables scope path deep tokens now = .ok () ↔
      pathSatisfied db scope.resource now (normalizePath path) deep tokens := by
  unfold check
  cases hns : db.namespaces.findByWorkspace scope.resource with
  | none =>
    refine ⟨fun _ l hl => ?_, fun _ => rfl⟩
    obtain ⟨r, hr, hw⟩ := map_eq_some_iff.mp hl.1.2.1
    exact absurd hw (Namespaces.findByWorkspace_eq_none.mp hns r (Table.mem_of_get hr))
  | some ns =>
    rw [requireSatisfied_ok, ← rootsSatisfied_iff hns]
    obtain ⟨hget, hw⟩ := Namespaces.findByWorkspace_eq_some hns
    have hmem : ∀ l : ResourceLock, l.expired now = false →
        (l ∈ overlappingLocks db.toLockTables ns.id (normalizePath path) deep deep ↔
          l ∈ findOverlappingLocks db.toLockTables ns.id (normalizePath path) deep) := by
      intro l hlive
      rw [findOverlappingLocks, mem_overlappingLocks, mem_overlappingLocks]
      refine and_congr_right fun hrow => and_congr_right fun hln => exists_congr fun q => ?_
      refine and_congr_right fun hq => ?_
      have hact : Active db scope.resource now l := ⟨hrow, by simp [LockTables.workspaceOf, hln, hget, hw], hlive⟩
      obtain ⟨a, hat, hroot⟩ := hpaths l hact
      obtain rfl : q = a.text := some.inj (hq.symm.trans hroot)
      exact reaches_fetch (hat.valid hn)
    exact ⟨.congr hmem, .congr fun l hlive => (hmem l hlive).symm⟩

end

/-! ### The writers' side -/

section

variable {db : LockDb} {w : WorkspaceResourceScope} {now : ℕ} {l : ResourceLock} {r r' : LockRoot} {deep : Bool}
variable {tokens : List String} {depth : LockDepth} {mount : Option ℕ}

theorem lockIsSatisfied_tokens : lockIsSatisfied l { holderUserId := none, tokens } ↔ l.token ∈ tokens := by
  simp [lockIsSatisfied]

/-- A resource that the writers can be asked about: it is there, or it is the root of a workspace that is. -/
def Askable (db : LockDb) (w : WorkspaceResourceScope) (r : LockRoot) : Prop :=
  LiveIn db.tree w r ∨ r = .workspaceRoot ∧ findWorkspaceOwner db w = .ok ()

theorem enforceOn_iff (hwf : WellFormed db.tree) (hask : Askable db w r) :
    enforceOn db w now { holderUserId := none, tokens } depth r ↔
      ∀ l, Active db w now l → Covers db.tree l r → l.token ∈ tokens := by
  cases r with
  | workspaceRoot =>
    obtain hlive | ⟨-, howner⟩ := hask
    · exact hlive.elim
    have htarget : membershipTarget db w none = .ok (.workspaceRoot, none) := bind_ok_iff.mpr ⟨(), howner, rfl⟩
    constructor
    · rintro ⟨db', h⟩ l ⟨hrow, hspace, hlive⟩ hcover
      obtain ⟨-, root, above, htarget', hperm⟩ := enforceMembership_ok h
      obtain ⟨rfl, rfl⟩ := ok_pair_inj (htarget.symm.trans htarget')
      exact (lockIsSatisfied_tokens).mp (hperm l hrow hspace hlive (lockCoversTarget_root.mpr hcover))
    · intro h
      refine enforceMembership_of_permits htarget fun l hrow hspace hlive hcover => ?_
      exact (lockIsSatisfied_tokens).mpr (h l ⟨hrow, hspace, hlive⟩ (lockCoversTarget_root.mp hcover))
  | folder i =>
    obtain ⟨f, hf, hact⟩ | ⟨hroot, -⟩ := hask
    swap
    · cases hroot
    obtain rfl : f.id = i := Table.key_of_get hf
    constructor
    · rintro ⟨g, ⟨current, db'⟩, hg, h⟩ l ⟨hrow, hspace, hlive⟩ hcover
      obtain rfl : f = g := some.inj (hf.symm.trans hg)
      obtain ⟨-, hcurrent, v, hv, -, hperm⟩ := enforceFolderMutationOn_ok h
      obtain rfl : w = v := some.inj (hact.1.symm.trans hv)
      obtain rfl : f = current := some.inj (hf.symm.trans hcurrent)
      exact (lockIsSatisfied_tokens).mp
        (hperm l hrow hspace hlive ((lockCoversTarget_folder (hwf.forest w) hf hact).mpr hcover))
    · intro h
      have hperm : Permits db { workspace := w, root := .folder f.id, depth } f.parentId
          { holderUserId := none, tokens } now := fun l hrow hspace hlive hcover =>
        (lockIsSatisfied_tokens).mpr
          (h l ⟨hrow, hspace, hlive⟩ ((lockCoversTarget_folder (hwf.forest w) hf hact).mp hcover))
      obtain ⟨db', hok⟩ := enforceFolderMutationOn_of_permits hf hact.1 hperm
      exact ⟨f, _, hf, hok⟩
  | file i =>
    obtain ⟨f, hf, hact⟩ | ⟨hroot, -⟩ := hask
    swap
    · cases hroot
    obtain rfl : f.id = i := Table.key_of_get hf
    constructor
    · rintro ⟨g, ⟨current, db'⟩, hg, h⟩ l ⟨hrow, hspace, hlive⟩ hcover
      obtain rfl : f = g := some.inj (hf.symm.trans hg)
      obtain ⟨-, hcurrent, v, hv, -, hperm⟩ := enforceFileMutationOn_ok h
      obtain rfl : w = v := some.inj (hact.1.symm.trans hv)
      obtain rfl : f = current := some.inj (hf.symm.trans hcurrent)
      exact (lockIsSatisfied_tokens).mp (hperm l hrow hspace hlive ((lockCoversTarget_file hwf hf hact).mpr hcover))
    · intro h
      have hperm : Permits db { workspace := w, root := .file f.id, depth := .resource } f.folderId
          { holderUserId := none, tokens } now := fun l hrow hspace hlive hcover =>
        (lockIsSatisfied_tokens).mpr (h l ⟨hrow, hspace, hlive⟩ ((lockCoversTarget_file hwf hf hact).mp hcover))
      obtain ⟨db', hok⟩ := enforceFileMutationOn_of_permits hf hact.1 hperm
      exact ⟨f, _, hf, hok⟩

theorem identityAccepts_iff (hwf : WellFormed db.tree) (hask : Askable db w r) :
    identityAccepts db w now r deep tokens ↔ ∀ l, OnResource db w now r deep l → l.token ∈ tokens := by
  have hall : ∀ r', Affected db.tree w r deep r' → Askable db w r' := by
    rintro r' (rfl | ⟨-, hlive, -⟩)
    · exact hask
    · exact .inl hlive
  constructor
  · rintro h l ⟨hact, r', haff, hcover⟩
    exact (enforceOn_iff hwf (hall r' haff)).mp (h r' haff) l hact hcover
  · intro h r' haff
    refine (enforceOn_iff hwf (hall r' haff)).mpr fun l hact hcover => ?_
    exact h l ⟨hact, r', haff, hcover⟩

theorem over_total {t : Tree} {r1 r2 r3 : LockRoot} (h1 : Over t r1 r3) (h2 : Over t r2 r3) :
    r1 = r2 ∨ Over t r1 r2 ∨ Over t r2 r1 := by
  have hfolders : ∀ {a b c : ℕ}, Forest.AtOrAbove (parentOf t.folders) a c → Forest.AtOrAbove (parentOf t.folders) b c →
        LockRoot.folder a = .folder b ∨ Over t (.folder a) (.folder b) ∨ Over t (.folder b) (.folder a) := by
    intro a b c ha hb
    rcases Forest.atOrAbove_total ha hb with hab | hba
    · rcases Forest.atOrAbove_iff.mp hab with rfl | habove
      · exact .inl rfl
      · exact .inr (.inl habove)
    · rcases Forest.atOrAbove_iff.mp hba with rfl | habove
      · exact .inl rfl
      · exact .inr (.inr habove)
  cases r1 with
  | workspaceRoot =>
    cases r2 with
    | workspaceRoot => exact .inl rfl
    | folder b | file b => exact .inr (.inl trivial)
  | file a => cases r3 <;> exact h1.elim
  | folder a =>
    cases r2 with
    | workspaceRoot => exact .inr (.inr trivial)
    | file b => cases r3 <;> exact h2.elim
    | folder b =>
      cases r3 with
      | workspaceRoot => exact h1.elim
      | folder c => exact hfolders (.of_above h1) (.of_above h2)
      | file c =>
        obtain ⟨x, p, hx, hp, hap⟩ := h1
        obtain ⟨y, q, hy, hq, hbq⟩ := h2
        obtain rfl := some.inj (hx.symm.trans hy)
        obtain rfl := some.inj (hp.symm.trans hq)
        exact hfolders hap hbq

theorem At.liveIn {a : Place} (h : At db.tree w mount r' a) (hmount : ∀ m, mount = some m →
    LiveIn db.tree w (.folder m)) (hover : Over db.tree r r') : LiveIn db.tree w r' := by
  cases h with
  | @file f parent names h hf hact hparent => exact ⟨f, Table.get_of_mem hf, hact⟩
  | @collection node names h =>
    cases h with
    | mount =>
      cases mount with
      | none => cases r <;> exact hover.elim
      | some m => exact hmount m rfl
    | @child parent names f h hf hact hparent => exact ⟨f, Table.get_of_mem hf, hact⟩

/-- The locks on a mutation are the ones on the resource, the deep ones above it, and for a deep mutation
the ones below it. -/
theorem onResource_iff {a : Place} (hact : Active db w now l) (hat : At db.tree w mount l.root a)
    (hmount : ∀ m, mount = some m → LiveIn db.tree w (.folder m)) :
    OnResource db w now r deep l ↔ l.root = r ∨ Over db.tree l.root r ∧ l.deep ∨ Over db.tree r l.root ∧ deep := by
  have hdeep : l.deep = true ↔ l.depth = .infinity := decide_eq_true_iff
  constructor
  · rintro ⟨-, r', rfl | ⟨hd, hlive, hover⟩, hsame | ⟨hinf, hcover⟩⟩
    · exact .inl hsame
    · exact .inr (.inl ⟨hcover, hdeep.mpr hinf⟩)
    · exact .inr (.inr ⟨hsame ▸ hover, hd⟩)
    · rcases over_total hcover hover with hsame | hup | hdown
      · exact .inl hsame
      · exact .inr (.inl ⟨hup, hdeep.mpr hinf⟩)
      · exact .inr (.inr ⟨hdown, hd⟩)
  · rintro (hsame | ⟨hover, hd⟩ | ⟨hover, hd⟩)
    · exact ⟨hact, r, .inl rfl, .inl hsame⟩
    · exact ⟨hact, r, .inl rfl, .inr ⟨hdeep.mp hd, hover⟩⟩
    · exact ⟨hact, l.root, .inr ⟨hd, hat.liveIn hmount hover, hover⟩, .inl rfl⟩

end

/-! ### Agreement -/

section

variable {backend : DbBackend} {normalizeName : String → String} {db : LockDb} {scope : WorkspaceStorageScope}
variable {w : WorkspaceResourceScope} {mount : Option ℕ} {now : ℕ} {r : LockRoot} {path : String} {deep : Bool}
variable {tokens : List String} {node : ResolvedNode}

/-- The tokens satisfy one side and not the other: each path that a lock on the request is presented at
has its token, and some lock on the resource has not; or the other way round. -/
def Discord (db : LockDb) (w : WorkspaceResourceScope) (now : ℕ) (path : String) (r : LockRoot) (deep : Bool)
    (tokens : List String) : Prop :=
  pathSatisfied db w now path deep tokens ∧ (∃ l, OnResource db w now r deep l ∧ l.token ∉ tokens) ∨
    (∃ l, OnPath db w now path deep l ∧ ∀ c, OnPath db w now path deep c → c.path = l.path → c.token ∉ tokens) ∧
      ∀ l, OnResource db w now r deep l → l.token ∈ tokens

/-- Each root that a lock on the resource has is the root of a lock whose token was submitted, and yet
one of the locks on the resource is without its token. -/
def PartlySubmitted (db : LockDb) (w : WorkspaceResourceScope) (now : ℕ) (r : LockRoot) (deep : Bool)
    (tokens : List String) : Prop :=
  (∀ l, OnResource db w now r deep l → ∃ c, OnResource db w now r deep c ∧ c.root = l.root ∧ c.token ∈ tokens) ∧
    ∃ l, OnResource db w now r deep l ∧ l.token ∉ tokens

theorem pathSatisfied_iff_not : ¬ pathSatisfied db w now path deep tokens ↔ ∃ l, OnPath db w now path deep l ∧
      ∀ c, OnPath db w now path deep c → c.path = l.path → c.token ∉ tokens := by
  unfold pathSatisfied
  push Not
  exact Iff.rfl

theorem askable_of_resolved (howner : findWorkspaceOwner db scope.resource = .ok ())
    (hmount : ∀ m, mount = some m → LiveIn db.tree scope.resource (.folder m))
    (hres : resolvePathInScope backend normalizeName db.tree scope mount path = .ok node) :
    Askable db scope.resource (resolvedRoot mount node) := by
  cases node with
  | root =>
    cases mount with
    | none => exact .inr ⟨rfl, howner⟩
    | some m => exact .inl (hmount m rfl)
  | folder g =>
    obtain ⟨hg, hact⟩ := resolvePathInScope_folder hres
    exact .inl ⟨g, Table.get_of_mem hg, hact⟩
  | file x =>
    obtain ⟨hx, hact⟩ := resolvePathInScope_file hres
    exact .inl ⟨x, Table.get_of_mem hx, hact⟩

theorem onPath_iff_onResource {b : Place} {l : ResourceLock} (hwf : WellFormed db.tree)
    (hn : Named db.tree scope.resource)
    (hmount : ∀ m, mount = some m → LiveIn db.tree scope.resource (.folder m))
    (hpaths : PathsCanonical db scope.resource mount now)
    (hres : resolvePathInScope backend normalizeName db.tree scope mount b.text = .ok node)
    (hb : At db.tree scope.resource mount (resolvedRoot mount node) b) :
    OnPath db scope.resource now b.text deep l ↔ OnResource db scope.resource now (resolvedRoot mount node) deep l := by
  by_cases hact : Active db scope.resource now l
  swap
  · exact ⟨fun h => absurd h.1 hact, fun h => absurd h.1 hact⟩
  obtain ⟨a, hat, hroot⟩ := hpaths l hact
  have hforest := hwf.forest scope.resource
  -- a lock in a folder of the same name would have made the path a folder's
  have hclash : ∀ ys y, b = .file ys y → ¬ ys ++ [y] <+: a.names := by
    rintro ys y rfl ⟨rest, hrest⟩
    obtain ⟨k, hk⟩ := hat.exists_folderAt
    rw [← hrest] at hk
    obtain ⟨m, hm, -⟩ := hk.split
    obtain ⟨i, hi⟩ := hb.exists_file
    cases node with
    | root => exact rootOf_ne_file hi
    | folder g => cases hi
    | file x => exact no_folder_at hn (hb.valid hn) hres hm
  have hpath : OnPath db scope.resource now b.text deep l ↔ reaches a.text l.deep b.text deep true := by
    unfold OnPath
    rw [hroot]
    simp [hact]
  rw [hpath, onResource_iff hact hat hmount,
    reaches_iff (hat.valid hn) (hb.valid hn) hclash fun _ => rfl, hat.eq_iff hn hforest hb,
    hat.over_iff hn hforest hb, hb.over_iff hn hforest hat]

theorem pathSegments_normalizePath (path : String) : pathSegments (normalizePath path) = pathSegments path := by
  unfold normalizePath
  split_ifs with h
  · rw [h]
    decide
  · rfl

end

/-! One file, and two users who share a lock on it. -/

def sharedFile : File := ⟨1, some 7, none, none, "a.txt", 1, 0, "text/plain", 0, none⟩

def sharedLock (id : ℕ) (token : String) : ResourceLock :=
  ⟨id, token, 1, .file 1, .resource, .shared, .webDav, some 7, none, none, some "/a.txt"⟩

def sharedLocks : LockDb where
  namespaces :=
    { rows := [⟨1, .personal 7, 2⟩], unique := by decide, next := 2, below := by decide, oneEach := by decide }
  locks := { rows := [sharedLock 1 "s", sharedLock 2 "t"], unique := by decide, next := 3, below := by decide }
  owned := by
    intro l hl
    refine ⟨⟨1, .personal 7, 2⟩, ?_⟩
    simp only [mem_cons, not_mem_nil, or_false] at hl
    rcases hl with rfl | rfl <;> decide
  tree :=
    { folders := .empty
      files := { rows := [sharedFile], unique := by decide, next := 2, below := by decide } }
  users := [7]
  teams := []

theorem sharedLocks_wellFormed : WellFormed sharedLocks.tree where
  forest w := .of_rows (fun _ h => nomatch h) (fun _ h => nomatch h)
  files f hf w _ p hp := by
    obtain rfl := mem_singleton.mp hf
    cases hp

theorem sharedLocks_named : Named sharedLocks.tree (.personal 7) where
  folderNames _ h := nomatch h
  fileNames f hf _ := by
    obtain rfl := mem_singleton.mp hf
    exact ⟨by decide, by decide⟩
  folders _ h := nomatch h
  files f hf g hg _ _ _ _ := by
    obtain rfl := mem_singleton.mp hf
    obtain rfl := mem_singleton.mp hg
    rfl

theorem sharedLocks_canonical : PathsCanonical sharedLocks (.personal 7) none 0 := by
  rintro l ⟨hrow, -, -⟩
  have hat : At sharedLocks.tree (.personal 7) none (.file 1) (.file [] "a.txt") :=
    .file (f := sharedFile) .mount mem_cons_self ⟨rfl, rfl⟩ rfl
  have hl : l = sharedLock 1 "s" ∨ l = sharedLock 2 "t" := by
    simpa [sharedLocks] using hrow
  rcases hl with rfl | rfl
  all_goals exact ⟨_, hat, by decide⟩

end AsterDrive.Webdav
