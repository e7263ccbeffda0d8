import AsterDrive.Files.Tree
import AsterDrive.Lib.BoundedMap
import AsterDrive.Lib.Cycles
import AsterDrive.Lib.Keyset

/-!
# FolderAudit — the audit of the folder tree

`audit_folder_tree_with_limit` goes through the folders workspace by workspace: the users that own folders, the teams,
and the folders without an owner. In each workspace it looks at the parent of every folder, and it walks up from the
folder to find a circle. What a walk found is remembered in a cache that may drop any of its entries.

`folder_audit_exact`: the audit ends, whatever the caches drop. It counts one finding for each folder whose parent is
missing, one for each folder whose parent lies in another workspace and one for each circle within a workspace, at the
least folder of the circle; the samples are the first of these findings.

The tables are read as they stand, without writers in between; database errors are left out. A loop that has not ended
after `rounds` rounds is `.error ()`.
-/

namespace AsterDrive.Files.Audit

open Db Forest List Keyset

/-! ### The tables and the report -/

structure FolderNode where
  parentId : Option ℕ
  ownerUserId : Option ℕ
  teamId : Option ℕ

def nodeOf (f : Folder) : FolderNode := ⟨f.parentId, f.ownerUserId, f.teamId⟩

inductive FolderAuditScope
  | user (userId : ℕ)
  | team (teamId : ℕ)
  | unowned

open FolderAuditScope

def folderInScope : FolderAuditScope → FolderNode → Bool
  | .user userId, node => node.ownerUserId = some userId && node.teamId.isNone
  | .team teamId, node => node.teamId = some teamId
  | .unowned, node => node.ownerUserId.isNone && node.teamId.isNone

inductive FolderTreeIssueKind
  | missingParent
  | crossScopeParent
  | cycle

structure FolderTreeIssue where
  kind : FolderTreeIssueKind
  folderId : ℕ
  parentId : Option ℕ
  detail : String

structure AuditFindingSummary where
  total : ℕ := 0
  samples : List FolderTreeIssue := []

def AuditFindingSummary.record (s : AuditFindingSummary) (value : FolderTreeIssue) (limit : ℕ) : AuditFindingSummary where
  total := s.total + 1
  samples := if s.samples.length < limit then s.samples ++ [value] else s.samples

/-- `{:?}` of an optional number. -/
def debugOption : Option ℕ → String
  | none => "None"
  | some n => s!"Some({n})"

def missingParent (folderId parentId : ℕ) : FolderTreeIssue where
  kind := .missingParent
  folderId := folderId
  parentId := some parentId
  detail := s!"folder#{folderId} points to missing parent#{parentId}"

def crossScopeParent (folder : Folder) (parentId : ℕ) (parent : FolderNode) : FolderTreeIssue where
  kind := .crossScopeParent
  folderId := folder.id
  parentId := some parentId
  detail := s!"folder#{folder.id} points to parent#{parentId} outside its workspace (folder owner/team=" ++
    s!"{debugOption folder.ownerUserId}/{debugOption folder.teamId}, parent owner/team=" ++
    s!"{debugOption parent.ownerUserId}/{debugOption parent.teamId})"

def folderCycle (representative : ℕ) (parentId : Option ℕ) : FolderTreeIssue where
  kind := .cycle
  folderId := representative
  parentId := parentId
  detail := s!"folder cycle detected involving folder#{representative}"

/-! ### The walk up from a folder -/

def folderParentCacheLimit : ℕ := 4096

structure FolderParentCache where
  nodes : BoundedMap ℕ (Option FolderNode) := {}
  outcomes : BoundedMap ℕ (Option ℕ) := {}

/-- Which entries the two maps drop, each time that they are full. -/
structure Eviction where
  nodes : ℕ → ℕ
  outcomes : ℕ → ℕ

section Walk

variable (t : Table Folder.id) (evict : Eviction) (scope : FolderAuditScope)

def loadFolderNode (id : ℕ) : Option FolderNode := (t.get id).map nodeOf

def FolderParentCache.insert (cache : FolderParentCache) (id : ℕ) (node : Option FolderNode) : FolderParentCache :=
  { cache with nodes := cache.nodes.insert folderParentCacheLimit evict.nodes id node }

def FolderParentCache.recordOutcome (cache : FolderParentCache) (id : ℕ) (outcome : Option ℕ) : FolderParentCache :=
  { cache with outcomes := cache.outcomes.insert folderParentCacheLimit evict.outcomes id outcome }

def nextFolderParentCached (id : ℕ) (cache : FolderParentCache) : Option ℕ × FolderParentCache :=
  let (node, cache) := match cache.nodes.get id with
    | some node => (node, cache)
    | none => (loadFolderNode t id, cache.insert evict id (loadFolderNode t id))
  ((node.filter (folderInScope scope)).bind FolderNode.parentId, cache)

/-- The loop of `find_folder_cycle_representative`, cut off after `rounds` rounds. -/
def walkUp : ℕ → List ℕ → Option ℕ → FolderParentCache → Except Unit (Option ℕ × FolderParentCache)
  | 0, _, _, _ => .error ()
  | _ + 1, path, none, cache => .ok (none, path.foldl (fun cache id => cache.recordOutcome evict id none) cache)
  | rounds + 1, path, some id, cache =>
    match cache.outcomes.get id with
    | some outcome => .ok (outcome, cache)
    | none =>
      if id ∈ path then
        match (path.drop (path.idxOf id)).min? with
        | none => .ok (none, cache)
        | some representative =>
          .ok (some representative, path.foldl (fun cache id => cache.recordOutcome evict id (some representative)) cache)
      else
        let (parent, cache) := nextFolderParentCached t evict scope id cache
        walkUp rounds (path ++ [id]) parent cache

def findFolderCycleRepresentative (rounds start : ℕ) (cache : FolderParentCache) :
    Except Unit (Option ℕ × FolderParentCache) := walkUp t evict scope rounds [] (some start) cache

/-! ### The audit of a workspace -/

structure Progress where
  issues : AuditFindingSummary := {}
  reportedCycles : List ℕ := []
  parentCache : FolderParentCache := {}

/-- What is recorded about the parent of a folder. -/
def auditParent (limit : ℕ) (folder : Folder) (parentId : ℕ) (issues : AuditFindingSummary) : AuditFindingSummary :=
  match loadFolderNode t parentId with
  | none => issues.record (missingParent folder.id parentId) limit
  | some parent =>
    if folderInScope scope parent = false then issues.record (crossScopeParent folder parentId parent) limit else issues

/-- One folder of a page. -/
def auditFolder (limit rounds : ℕ) (s : Progress) (folder : Folder) : Except Unit Progress :=
  match folder.parentId with
  | none => .ok s
  | some parentId =>
    let issues := auditParent t scope limit folder parentId s.issues
    match findFolderCycleRepresentative t evict scope rounds folder.id s.parentCache with
    | .error () => .error ()
    | .ok (none, cache) => .ok { s with issues, parentCache := cache }
    | .ok (some representative, cache) =>
      if representative ∈ s.reportedCycles then .ok { s with issues, parentCache := cache }
      else
        let (parent, cache) := nextFolderParentCached t evict scope representative cache
        .ok { issues := issues.record (folderCycle representative parent) limit
              reportedCycles := representative :: s.reportedCycles
              parentCache := cache }

end Walk

def integrityBatchSize : ℕ := 1000

/-- The loops over pages end with an empty page. -/
def ended {σ : Type} : σ × Except Unit Bool → Except Unit σ
  | (s, .ok true) => .ok s
  | _ => .error ()

def auditFolderTreePartitionBounded (t : Table Folder.id) (evict : Eviction) (limit rounds : ℕ)
    (scope : FolderAuditScope) : Except Unit AuditFindingSummary :=
  (ended (Keyset.scan Folder.id integrityBatchSize (t.rows.filter fun f => folderInScope scope (nodeOf f))
    (fun s rows => rows.foldlM (auditFolder t evict scope limit rounds) s) rounds none {})).map Progress.issues

/-! ### The audit of all workspaces -/

section Tree

variable (t : Table Folder.id) (evict : FolderAuditScope → Eviction) (limit rounds : ℕ)

/-- A workspace is audited, and what it had is added. -/
def addPartition (issues : AuditFindingSummary) (scope : FolderAuditScope) : Except Unit AuditFindingSummary :=
  (auditFolderTreePartitionBounded t (evict scope) limit rounds scope).map fun found =>
    { total := issues.total + found.total
      samples := issues.samples ++ found.samples.take (limit - issues.samples.length) }

/-- `SELECT DISTINCT owner_user_id FROM folders WHERE owner_user_id IS NOT NULL AND team_id IS NULL`. -/
def folderOwners : List ℕ := ((t.rows.filter fun f => f.teamId.isNone).filterMap Folder.ownerUserId).dedup

/-- `SELECT DISTINCT team_id FROM folders WHERE team_id IS NOT NULL`. -/
def folderTeams : List ℕ := (t.rows.filterMap Folder.teamId).dedup

def auditFolderTreeWithLimit : Except Unit AuditFindingSummary := do
  let issues ← ended (Keyset.scan id integrityBatchSize (folderOwners t)
    (fun issues rows => rows.foldlM (fun issues userId => addPartition t evict limit rounds issues (.user userId)) issues)
    rounds none {})
  let issues ← ended (Keyset.scan id integrityBatchSize (folderTeams t)
    (fun issues rows => rows.foldlM (fun issues teamId => addPartition t evict limit rounds issues (.team teamId)) issues)
    rounds none issues)
  addPartition t evict limit rounds issues .unowned

end Tree

/-! ### What there is to find -/

/-- The parent pointers of the folders of one workspace. -/
def parentWithin (t : Table Folder.id) (w : Option WorkspaceResourceScope) (id : ℕ) : Option ℕ :=
  ((t.get id).filter fun f => f.workspace = w).bind Folder.parentId

/-- What is wrong with the parent of a folder. -/
def parentIssueOf (t : Table Folder.id) (f : Folder) : Option FolderTreeIssue :=
  f.parentId.bind fun p =>
    match t.get p with
    | none => some (missingParent f.id p)
    | some parent => if parent.workspace = f.workspace then none else some (crossScopeParent f p (nodeOf parent))

def cycleOf (t : Table Folder.id) (w : Option WorkspaceResourceScope) (r : ℕ) : FolderTreeIssue :=
  folderCycle r (parentWithin t w r)

/-- The findings of one workspace. -/
def IssueIn (t : Table Folder.id) (w : Option WorkspaceResourceScope) (i : FolderTreeIssue) : Prop :=
  (∃ f ∈ t.rows, f.workspace = w ∧ parentIssueOf t f = some i) ∨ ∃ r, Represents (parentWithin t w) r ∧ i = cycleOf t w r

/-- The report on a list of findings. -/
def summaryOf (limit : ℕ) (findings : List FolderTreeIssue) : AuditFindingSummary :=
  ⟨findings.length, findings.take limit⟩

def FolderTreeIssue.key (i : FolderTreeIssue) : FolderTreeIssueKind × ℕ := (i.kind, i.folderId)

def FolderAuditScope.workspace : FolderAuditScope → Option WorkspaceResourceScope
  | .user userId => some (.personal userId)
  | .team teamId => some (.team teamId)
  | .unowned => none

theorem folderInScope_iff (scope : FolderAuditScope) (f : Folder) :
    folderInScope scope (nodeOf f) = true ↔ f.workspace = scope.workspace := by
  unfold Folder.workspace
  rcases hteam : f.teamId with _ | teamId <;> rcases howner : f.ownerUserId with _ | userId <;>
    cases scope <;> simp [folderInScope, nodeOf, workspace, hteam, howner]

theorem summaryOf_record (limit : ℕ) (l : List FolderTreeIssue) (i : FolderTreeIssue) :
    (summaryOf limit l).record i limit = summaryOf limit (l ++ [i]) := by
  unfold summaryOf AuditFindingSummary.record
  rw [length_append, length_singleton, length_take]
  by_cases hroom : l.length < limit
  · rw [if_pos (by omega), take_of_length_le hroom.le, take_of_length_le (by simp; omega)]
  · rw [if_neg (by omega), take_append_of_le_length (by omega)]

theorem summaryOf_append (limit : ℕ) (l l' : List FolderTreeIssue) :
    ({ total := (summaryOf limit l).total + (summaryOf limit l').total
       samples := (summaryOf limit l).samples ++
        (summaryOf limit l').samples.take (limit - (summaryOf limit l).samples.length) } : AuditFindingSummary) =
      summaryOf limit (l ++ l') := by
  have hsamples : l.take limit ++ (l'.take limit).take (limit - (l.take limit).length) = (l ++ l').take limit := by
    have hlen : min (limit - (l.take limit).length) limit = limit - l.length := by
      rw [length_take]
      omega
    rw [take_take, hlen, take_append]
  unfold summaryOf
  rw [hsamples, length_append]

section Findings

variable {t : Table Folder.id} {w : Option WorkspaceResourceScope} {i j : FolderTreeIssue} {f : Folder} {id p r : ℕ}

theorem parentWithin_some (h : parentWithin t w id = some p) :
    ∃ f, t.get id = some f ∧ f.workspace = w ∧ f.parentId = some p := by
  obtain ⟨f, hf, hp⟩ := Option.bind_eq_some_iff.mp h
  obtain ⟨hget, hw⟩ := Option.filter_eq_some_iff.mp hf
  exact ⟨f, hget, of_decide_eq_true hw, hp⟩

theorem parentIssueOf_eq_some : parentIssueOf t f = some i ↔ ∃ p, f.parentId = some p ∧
    (t.get p = none ∧ i = missingParent f.id p ∨
      ∃ parent, t.get p = some parent ∧ parent.workspace ≠ f.workspace ∧ i = crossScopeParent f p (nodeOf parent)) := by
  unfold parentIssueOf
  rw [Option.bind_eq_some_iff]
  refine exists_congr fun p => and_congr_right fun _ => ?_
  rcases t.get p with _ | parent
  · simp [eq_comm]
  · by_cases hw : parent.workspace = f.workspace
    · simp [hw]
    · dsimp only
      rw [if_neg hw]
      constructor
      · intro h
        exact .inr ⟨parent, rfl, hw, (Option.some.inj h).symm⟩
      · rintro (⟨h, -⟩ | ⟨p', h, -, rfl⟩) <;> cases h
        rfl

theorem key_of_parentIssueOf (h : parentIssueOf t f = some i) : i.folderId = f.id ∧ i.kind ≠ .cycle := by
  obtain ⟨p, -, ⟨-, rfl⟩ | ⟨parent, -, -, rfl⟩⟩ := (parentIssueOf_eq_some).mp h
  · exact ⟨rfl, by simp [missingParent]⟩
  · exact ⟨rfl, by simp [crossScopeParent]⟩

theorem exists_of_represents (h : Represents (parentWithin t w) r) : ∃ f, t.get r = some f ∧ f.workspace = w := by
  obtain ⟨p, hp, -⟩ := above_iff.mp h.circle
  obtain ⟨f, hget, hw, -⟩ := parentWithin_some hp
  exact ⟨f, hget, hw⟩

theorem IssueIn.folder (h : IssueIn t w i) : ∃ f, t.get i.folderId = some f ∧ f.workspace = w := by
  rcases h with ⟨f, hf, hw, hissue⟩ | ⟨r, hr, rfl⟩
  · refine ⟨f, ?_, hw⟩
    rw [(key_of_parentIssueOf hissue).1]
    exact t.get_of_mem hf
  · exact exists_of_represents hr

end Findings

/-! ### The walk is exact -/

section Walks

variable {t : Table Folder.id} {evict : Eviction} {scope : FolderAuditScope} {cache : FolderParentCache}
  {parent : ℕ → Option ℕ} {o : Option ℕ} {id start : ℕ} {path : List ℕ} {current : Option ℕ} {rounds : ℕ}

/-- What the walk from a folder finds. -/
def Outcome (parent : ℕ → Option ℕ) (id : ℕ) : Option ℕ → Prop
  | none => TopsOut parent id
  | some r => LeadsTo parent id r

/-- The cache holds the rows of the table and what walks found. -/
structure CacheOk (t : Table Folder.id) (scope : FolderAuditScope) (cache : FolderParentCache) : Prop where
  nodes : cache.nodes.Holds fun id node => node = loadFolderNode t id
  outcomes : cache.outcomes.Holds (Outcome (parentWithin t scope.workspace))

theorem cacheOk_empty : CacheOk t scope {} := ⟨BoundedMap.holds_empty, BoundedMap.holds_empty⟩

theorem Outcome.of_above {a : ℕ} (h : Outcome parent a o) (ha : AtOrAbove parent a id) : Outcome parent id o := by
  cases o with
  | none =>
    obtain ⟨b, hb, hnone⟩ := h
    exact ⟨b, hb.trans ha, hnone⟩
  | some r => exact ⟨h.1.trans ha, h.2⟩

theorem scopeParent_eq (t : Table Folder.id) (scope : FolderAuditScope) (id : ℕ) :
    ((loadFolderNode t id).filter (folderInScope scope)).bind FolderNode.parentId =
      parentWithin t scope.workspace id := by
  unfold loadFolderNode parentWithin
  rcases t.get id with _ | f
  · rfl
  · have hscope := folderInScope_iff scope f
    rw [Option.map_some, Option.filter_some, Option.filter_some]
    by_cases hw : f.workspace = scope.workspace
    · rw [if_pos (hscope.mpr hw), if_pos (decide_eq_true hw)]
      rfl
    · rw [if_neg fun hin => hw (hscope.mp hin), if_neg fun hin => hw (of_decide_eq_true hin)]
      rfl

theorem nextFolderParentCached_spec (h : CacheOk t scope cache) (id : ℕ) :
    ∃ cache', nextFolderParentCached t evict scope id cache = (parentWithin t scope.workspace id, cache') ∧
      CacheOk t scope cache' := by
  rw [← scopeParent_eq]
  unfold nextFolderParentCached
  rcases hget : cache.nodes.get id with _ | node
  · exact ⟨_, rfl, BoundedMap.holds_insert h.nodes rfl _ _, h.outcomes⟩
  · have hnode : node = loadFolderNode t id := h.nodes.get hget
    exact ⟨cache, by rw [hnode], h⟩

theorem CacheOk.recordAll (h : CacheOk t scope cache)
    (hpath : ∀ x ∈ path, Outcome (parentWithin t scope.workspace) x o) :
    CacheOk t scope (path.foldl (fun cache id => cache.recordOutcome evict id o) cache) := by
  induction path generalizing cache with
  | nil => exact h
  | cons x path ih =>
    refine ih ⟨h.nodes, ?_⟩ fun y hy => hpath y (mem_cons_of_mem x hy)
    exact BoundedMap.holds_insert h.outcomes (hpath x mem_cons_self) _ _

/-- **The walk ends, and what it returns and remembers is right.** -/
theorem walkUp_spec (h : CacheOk t scope cache)
    (hwalk : Forest.Walk (parentWithin t scope.workspace) (some start) path current) (hnodup : path.Nodup)
    (hpositive : 0 < rounds)
    (hrounds : ∀ id, current = some id → path ⊆ t.rows.map Folder.id ∧ t.rows.length + 2 ≤ rounds + path.length) :
    ∃ o cache', walkUp t evict scope rounds path current cache = .ok (o, cache') ∧ CacheOk t scope cache' ∧
      Outcome (parentWithin t scope.workspace) start o := by
  induction rounds generalizing path current cache with
  | zero => omega
  | succ rounds ih =>
    rcases current with _ | id
    · exact ⟨none, _, rfl, h.recordAll fun x hx => hwalk.topsOut_mem hx, hwalk.topsOut start rfl⟩
    · obtain ⟨a, ha, habove⟩ := hwalk.exists_start
      cases ha
      unfold walkUp
      rcases hget : cache.outcomes.get id with _ | o
      · by_cases hmem : id ∈ path
        · -- The walk has come back to a folder of its path.
          have hindex := idxOf_lt_length_of_mem hmem
          have hsplit : path = path.take (path.idxOf id) ++ id :: path.drop (path.idxOf id + 1) := by
            conv_lhs => rw [← take_append_drop (path.idxOf id) path, drop_eq_getElem_cons hindex]
            rw [getElem_idxOf hindex]
          have hdrop : path.drop (path.idxOf id) = id :: path.drop (path.idxOf id + 1) := by
            rw [drop_eq_getElem_cons hindex, getElem_idxOf hindex]
          obtain ⟨r, hr⟩ : ∃ r, (path.drop (path.idxOf id)).min? = some r := by
            rw [hdrop, min?_cons]
            exact ⟨_, rfl⟩
          obtain ⟨hmin, hleast⟩ := min?_eq_some_iff.mp hr
          rw [hdrop] at hmin hleast
          have hleads : ∀ x ∈ path, LeadsTo (parentWithin t scope.workspace) x r := by
            intro x hx
            rw [hsplit] at hx hwalk
            exact hwalk.leadsTo hmin hleast hx
          have hstart : LeadsTo (parentWithin t scope.workspace) start r := by
            obtain ⟨hid, hrep⟩ := hleads id hmem
            exact ⟨hid.trans habove, hrep⟩
          simp only [if_pos hmem, hr]
          exact ⟨some r, _, rfl, h.recordAll hleads, hstart⟩
        · obtain ⟨hsub, hlength⟩ := hrounds id rfl
          obtain ⟨cache', hnext, hcache⟩ := @nextFolderParentCached_spec t evict scope cache h id
          have hfew : path.length ≤ t.rows.length := by
            have hle := (subperm_of_subset hnodup hsub).length_le
            rwa [length_map] at hle
          simp only [if_neg hmem, hnext]
          have hnodup' : (path ++ [id]).Nodup := by
            rw [← concat_eq_append]
            exact hnodup.concat hmem
          refine ih hcache hwalk.snoc hnodup' (by omega) fun p hp => ⟨?_, ?_⟩
          · obtain ⟨f, hf, -, -⟩ := parentWithin_some hp
            refine append_subset.mpr ⟨hsub, fun x hx => ?_⟩
            rw [mem_singleton.mp hx]
            exact mem_map.mpr ⟨f, t.mem_of_get hf, t.key_of_get hf⟩
          · rw [length_append, length_singleton]
            omega
      · exact ⟨o, cache, rfl, h, Outcome.of_above (h.outcomes.get hget) habove⟩

end Walks

/-! ### The audit of a workspace is exact -/

theorem scan_ended {α σ : Type} {key : α → ℕ} {rows : List α} {step : σ → α → Except Unit σ} {s s' : σ} {rounds : ℕ}
    (hnodup : (rows.map key).Nodup) (hrounds : (Keyset.behind key none rows).length < rounds)
    (hfold : (Keyset.behind key none rows).foldlM step s = .ok s') :
    ended (Keyset.scan key integrityBatchSize rows (fun s page => page.foldlM step s) rounds none s) = .ok s' := by
  obtain ⟨hended, hstate⟩ := @scan_rows α ℕ _ key none integrityBatchSize rows σ Unit s step hnodup (by decide) rounds
    hrounds
  rw [hfold] at hended
  have hscan : scan key integrityBatchSize rows (fun s page => page.foldlM step s) rounds none s = (s', .ok true) :=
    Prod.ext (hstate s' hfold) hended
  rw [hscan]
  rfl

section Partition

variable {t : Table Folder.id} {evict : Eviction} {scope : FolderAuditScope} {limit rounds : ℕ}
  {seen rest : List Folder} {f : Folder} {p : ℕ} {s : Progress}

/-- The audit has gone through the folders of `seen`. -/
structure Audited (t : Table Folder.id) (scope : FolderAuditScope) (limit : ℕ) (seen : List Folder) (s : Progress) :
    Prop where
  cache : CacheOk t scope s.parentCache
  once : s.reportedCycles.Nodup
  cycles : ∀ r ∈ s.reportedCycles, Represents (parentWithin t scope.workspace) r
  found : ∀ f ∈ seen, ∀ r, LeadsTo (parentWithin t scope.workspace) f.id r → r ∈ s.reportedCycles
  issues : ∃ l, s.issues = summaryOf limit l ∧
    l.Perm (seen.filterMap (parentIssueOf t) ++ s.reportedCycles.map (cycleOf t scope.workspace))

theorem audited_start : Audited t scope limit [] {} where
  cache := cacheOk_empty
  once := nodup_nil
  cycles := fun _ hr => by cases hr
  found := fun _ hf => by cases hf
  issues := ⟨[], by rw [summaryOf, take_nil]; rfl, .refl _⟩

theorem auditParent_eq (hw : f.workspace = scope.workspace) (hp : f.parentId = some p) (l : List FolderTreeIssue) :
    auditParent t scope limit f p (summaryOf limit l) = summaryOf limit (l ++ (parentIssueOf t f).toList) := by
  unfold auditParent loadFolderNode parentIssueOf
  rw [hp, Option.bind_some]
  rcases t.get p with _ | g
  · exact summaryOf_record limit l _
  · show (if folderInScope scope (nodeOf g) = false then _ else _) = _
    have hscope := folderInScope_iff scope g
    by_cases hin : g.workspace = scope.workspace
    · rw [if_neg (by rw [hscope.mpr hin]; simp)]
      simp [hin, hw]
    · rw [if_pos (Bool.eq_false_iff.mpr fun h => hin (hscope.mp h))]
      simp [hin, hw, summaryOf_record]

theorem not_leadsTo (hget : t.get f.id = some f) (hp : f.parentId = none) (w : Option WorkspaceResourceScope) (r : ℕ) :
    ¬ LeadsTo (parentWithin t w) f.id r := by
  intro hr
  refine hr.not_topsOut ⟨f.id, .refl, ?_⟩
  rcases hpar : parentWithin t w f.id with _ | p
  · rfl
  · obtain ⟨g, hg, -, hgp⟩ := parentWithin_some hpar
    rw [hget] at hg
    cases hg
    rw [hp] at hgp
    cases hgp

/-- **One folder.** Its parent is judged, and its circle is reported unless it was before. -/
theorem auditFolder_ok (h : Audited t scope limit seen s) (hf : f ∈ t.rows) (hw : f.workspace = scope.workspace)
    (hrounds : t.rows.length + 2 ≤ rounds) :
    ∃ s', auditFolder t evict scope limit rounds s f = .ok s' ∧ Audited t scope limit (seen ++ [f]) s' := by
  have hget : t.get f.id = some f := t.get_of_mem hf
  have hmap : (seen ++ [f]).filterMap (parentIssueOf t) = seen.filterMap (parentIssueOf t) ++ (parentIssueOf t f).toList := by
    rcases hi : parentIssueOf t f with _ | i <;> simp [hi]
  obtain ⟨l, hl, hperm⟩ := h.issues
  unfold auditFolder
  rcases hp : f.parentId with _ | p
  · have hquiet : parentIssueOf t f = none := by
      rw [parentIssueOf, hp]
      rfl
    refine ⟨s, rfl, h.cache, h.once, h.cycles, fun g hg r hr => ?_, l, hl, ?_⟩
    · rcases mem_append.mp hg with hg | hg
      · exact h.found g hg r hr
      · rw [mem_singleton.mp hg] at hr
        exact absurd hr (not_leadsTo hget hp _ r)
    · rw [hmap, hquiet]
      simpa using hperm
  · -- The parent comes first, then the walk.
    have hparent := @auditParent_eq t scope limit f p hw hp l
    have hperm' : (l ++ (parentIssueOf t f).toList).Perm
        ((seen ++ [f]).filterMap (parentIssueOf t) ++ s.reportedCycles.map (cycleOf t scope.workspace)) := by
      rw [hmap, append_assoc]
      refine (hperm.append_right _).trans ?_
      rw [append_assoc]
      exact List.perm_append_comm.append_left _
    obtain ⟨o, cache, hfind, hcache, houtcome⟩ := @walkUp_spec t evict scope s.parentCache f.id [] (some f.id) rounds
      h.cache (.nil _) nodup_nil (by omega) fun _ _ => ⟨nil_subset _, by simpa using hrounds⟩
    have hfound : ∀ r', LeadsTo (parentWithin t scope.workspace) f.id r' → o = some r' := by
      intro r' hr'
      cases o with
      | none => exact absurd houtcome hr'.not_topsOut
      | some r => rw [LeadsTo.unique houtcome hr']
    have hseen : ∀ cycles : List ℕ, (∀ r ∈ s.reportedCycles, r ∈ cycles) → (∀ r, o = some r → r ∈ cycles) →
        ∀ g ∈ seen ++ [f], ∀ r, LeadsTo (parentWithin t scope.workspace) g.id r → r ∈ cycles := by
      intro cycles hold ho g hg r hr
      rcases mem_append.mp hg with hg | hg
      · exact hold r (h.found g hg r hr)
      · rw [mem_singleton.mp hg] at hr
        exact ho r (hfound r hr)
    unfold findFolderCycleRepresentative
    simp only [hl, hparent, hfind]
    rcases o with _ | r
    · exact ⟨_, rfl, hcache, h.once, h.cycles, hseen _ (fun _ hr => hr) (fun r hr => by cases hr), _, rfl, hperm'⟩
    · by_cases hmem : r ∈ s.reportedCycles
      · refine ⟨_, if_pos hmem, hcache, h.once, h.cycles, hseen _ (fun _ hr => hr) (fun r' hr => ?_), _, rfl, hperm'⟩
        cases hr
        exact hmem
      · obtain ⟨cache', hnext, hcache'⟩ := @nextFolderParentCached_spec t evict scope cache hcache r
        simp only [if_neg hmem, hnext]
        refine ⟨_, rfl, hcache', h.once.cons hmem, fun r' hr' => ?_,
          hseen _ (fun _ hr => mem_cons_of_mem r hr) (fun r' hr => ?_), _, summaryOf_record limit _ _, ?_⟩
        · rcases mem_cons.mp hr' with rfl | hr'
          · exact houtcome.2
          · exact h.cycles r' hr'
        · cases hr
          exact mem_cons_self
        · exact (perm_append_singleton _ _).trans ((hperm'.cons _).trans perm_middle.symm)

/-- **The folders of a workspace**, one after the other. -/
theorem auditFolders_ok (h : Audited t scope limit seen s)
    (hrest : ∀ f ∈ rest, f ∈ t.rows ∧ f.workspace = scope.workspace) (hrounds : t.rows.length + 2 ≤ rounds) :
    ∃ s', rest.foldlM (auditFolder t evict scope limit rounds) s = .ok s' ∧
      Audited t scope limit (seen ++ rest) s' := by
  induction rest generalizing seen s with
  | nil =>
    rw [append_nil]
    exact ⟨s, rfl, h⟩
  | cons f rest ih =>
    obtain ⟨hf, hw⟩ := hrest f mem_cons_self
    obtain ⟨s1, hstep, h1⟩ := @auditFolder_ok t evict scope limit rounds seen f s h hf hw hrounds
    rw [foldlM_cons, hstep, append_cons]
    exact ih h1 fun g hg => hrest g (mem_cons_of_mem f hg)

theorem folderIds_sublist (rows : List Folder) :
    ((rows.filterMap (parentIssueOf t)).map FolderTreeIssue.folderId).Sublist (rows.map Folder.id) := by
  induction rows with
  | nil => exact .slnil
  | cons f rows ih =>
    rcases hi : parentIssueOf t f with _ | i
    · rw [filterMap_cons_none hi]
      exact ih.cons _
    · rw [filterMap_cons_some hi, map_cons, (key_of_parentIssueOf hi).1]
      exact ih.cons_cons _

theorem nodup_keys {rows : List Folder} {cycles : List ℕ} (w : Option WorkspaceResourceScope)
    (hrows : (rows.map Folder.id).Nodup) (hcycles : cycles.Nodup) :
    ((rows.filterMap (parentIssueOf t) ++ cycles.map (cycleOf t w)).map FolderTreeIssue.key).Nodup := by
  rw [map_append, map_map]
  refine List.Nodup.append (Nodup.of_map Prod.snd ?_) (hcycles.map ?_) fun k hk hk' => ?_
  · rw [map_map]
    exact hrows.sublist (folderIds_sublist rows)
  · intro r r' heq
    exact (Prod.mk.inj heq).2
  · obtain ⟨i, hi, rfl⟩ := mem_map.mp hk
    obtain ⟨f, -, hissue⟩ := mem_filterMap.mp hi
    obtain ⟨r, -, hkey⟩ := mem_map.mp hk'
    exact (key_of_parentIssueOf hissue).2 (Prod.mk.inj hkey).1.symm

/-- The findings of a workspace, each once. -/
structure Exact (t : Table Folder.id) (w : Option WorkspaceResourceScope) (l : List FolderTreeIssue) : Prop where
  once : (l.map FolderTreeIssue.key).Nodup
  mem : ∀ i, i ∈ l ↔ IssueIn t w i

/-- **The audit of a workspace.** -/
theorem auditPartition_ok (hrounds : t.rows.length + 2 ≤ rounds) :
    ∃ l, auditFolderTreePartitionBounded t evict limit rounds scope = .ok (summaryOf limit l) ∧ Exact t scope.workspace l := by
  let rows := t.rows.filter fun f => folderInScope scope (nodeOf f)
  have hnodup : (rows.map Folder.id).Nodup := t.unique.sublist (List.filter_sublist.map _)
  have hmem : ∀ f, f ∈ behind Folder.id none rows ↔ f ∈ t.rows ∧ f.workspace = scope.workspace := by
    intro f
    rw [mem_behind_none, mem_filter, folderInScope_iff]
  have hids : ((behind Folder.id none rows).map Folder.id).Nodup :=
    (nodup_behind hnodup).map_on fun f hf g hg heq => t.eq_of_key ((hmem f).mp hf).1 ((hmem g).mp hg).1 heq
  have hlength : (behind Folder.id none rows).length < rounds := by
    have hle := (subperm_of_subset (nodup_behind hnodup) fun f hf => ((hmem f).mp hf).1).length_le
    omega
  obtain ⟨s, hfold, h⟩ := @auditFolders_ok t evict scope limit rounds [] (behind Folder.id none rows) {}
    audited_start (fun f hf => (hmem f).mp hf) hrounds
  obtain ⟨l, hl, hperm⟩ := h.issues
  refine ⟨l, ?_, ((hperm.map _).nodup_iff).mpr (nodup_keys _ hids h.once), fun i => ?_⟩
  · unfold auditFolderTreePartitionBounded
    rw [scan_ended hnodup hlength hfold, ← hl]
    rfl
  · rw [hperm.mem_iff, mem_append, mem_filterMap, mem_map, IssueIn]
    refine or_congr ⟨?_, ?_⟩ ⟨?_, ?_⟩
    · rintro ⟨f, hf, hi⟩
      obtain ⟨hrow, hw⟩ := (hmem f).mp hf
      exact ⟨f, hrow, hw, hi⟩
    · rintro ⟨f, hrow, hw, hi⟩
      exact ⟨f, (hmem f).mpr ⟨hrow, hw⟩, hi⟩
    · rintro ⟨r, hr, hi⟩
      exact ⟨r, h.cycles r hr, hi.symm⟩
    · -- A circle goes through a folder of the workspace, which was visited.
      rintro ⟨r, hr, hi⟩
      obtain ⟨f, hget, hw⟩ := exists_of_represents hr
      have hid : f.id = r := t.key_of_get hget
      refine ⟨r, h.found f ((hmem f).mpr ⟨t.mem_of_get hget, hw⟩) r ?_, hi.symm⟩
      rw [hid]
      exact ⟨.refl, hr⟩

end Partition

/-! ### The audit of the tree is exact -/

section Whole

variable {t : Table Folder.id} {evict : FolderAuditScope → Eviction} {limit rounds : ℕ}
  {found : FolderAuditScope → List FolderTreeIssue}

theorem addPartition_eq {scope : FolderAuditScope} (l : List FolderTreeIssue)
    (hfound : auditFolderTreePartitionBounded t (evict scope) limit rounds scope = .ok (summaryOf limit (found scope))) :
    addPartition t evict limit rounds (summaryOf limit l) scope = .ok (summaryOf limit (l ++ found scope)) := by
  unfold addPartition
  rw [hfound, ← summaryOf_append]
  rfl

theorem addPartitions_eq (mk : ℕ → FolderAuditScope) (ids : List ℕ) (l : List FolderTreeIssue)
    (hfound : ∀ scope, auditFolderTreePartitionBounded t (evict scope) limit rounds scope =
      .ok (summaryOf limit (found scope))) :
    ids.foldlM (fun issues id => addPartition t evict limit rounds issues (mk id)) (summaryOf limit l) =
      .ok (summaryOf limit (l ++ (ids.map mk).flatMap found)) := by
  induction ids generalizing l with
  | nil =>
    rw [map_nil, flatMap_nil, append_nil]
    rfl
  | cons id ids ih =>
    rw [foldlM_cons, addPartition_eq l (hfound _), map_cons, flatMap_cons, ← append_assoc]
    exact ih (l ++ found (mk id))

theorem length_folderOwners : (folderOwners t).length ≤ t.rows.length :=
  (dedup_sublist _).length_le.trans ((length_filterMap_le _ _).trans (length_filter_le _ _))

theorem length_folderTeams : (folderTeams t).length ≤ t.rows.length :=
  (dedup_sublist _).length_le.trans (length_filterMap_le _ _)

theorem length_behind {ids : List ℕ} (hids : ids.Nodup) (hlength : ids.length ≤ t.rows.length)
    (hrounds : t.rows.length + 2 ≤ rounds) : (Keyset.behind id none ids).length < rounds := by
  have hnodup : (behind id none ids).Nodup := nodup_behind (by rwa [map_id])
  have hle := (subperm_of_subset hnodup fun x hx => mem_behind_none.mp hx).length_le
  omega

/-- The workspaces in the order of their audit. -/
def auditScopes (t : Table Folder.id) : List FolderAuditScope :=
  (Keyset.behind id none (folderOwners t)).map .user ++ (Keyset.behind id none (folderTeams t)).map .team ++ [.unowned]

theorem nodup_auditScopes : (auditScopes t).Nodup := by
  have hbehind : ∀ ids : List ℕ, (behind id none ids.dedup).Nodup :=
    fun ids => nodup_behind (by rw [map_id]; exact nodup_dedup ids)
  have howners : ((behind id none (folderOwners t)).map user).Nodup := (hbehind _).map fun u u' heq => user.inj heq
  have hteams : ((behind id none (folderTeams t)).map team).Nodup := (hbehind _).map fun m m' heq => team.inj heq
  refine (howners.append hteams ?_).append (nodup_singleton _) ?_
  · simp [disjoint_left]
  · simp [disjoint_left]

theorem exists_auditScope {f : Folder} (hf : f ∈ t.rows) : ∃ scope ∈ auditScopes t, scope.workspace = f.workspace := by
  unfold auditScopes Folder.workspace
  rcases hteam : f.teamId with _ | m
  · rcases howner : f.ownerUserId with _ | u
    · exact ⟨.unowned, by simp, rfl⟩
    · have hu : u ∈ folderOwners t := by
        refine mem_dedup.mpr (mem_filterMap.mpr ⟨f, ?_, howner⟩)
        exact mem_filter.mpr ⟨hf, by rw [hteam]; rfl⟩
      exact ⟨.user u, by simp [mem_behind_none, hu], rfl⟩
  · have hm : m ∈ folderTeams t := mem_dedup.mpr (mem_filterMap.mpr ⟨f, hf, hteam⟩)
    exact ⟨.team m, by simp [mem_behind_none, hm], rfl⟩

theorem workspace_injective : Function.Injective workspace := by
  intro scope scope' heq
  cases scope <;> cases scope' <;> simp_all [workspace]

theorem nodup_found (hfound : ∀ scope, Exact t scope.workspace (found scope)) :
    (((auditScopes t).flatMap found).map FolderTreeIssue.key).Nodup := by
  rw [map_flatMap]
  refine nodup_flatMap.mpr ⟨fun scope _ => (hfound scope).once, (nodup_auditScopes).imp fun {scope scope'} hne => ?_⟩
  intro k hk hk'
  obtain ⟨i, hi, rfl⟩ := mem_map.mp hk
  obtain ⟨j, hj, hkey⟩ := mem_map.mp hk'
  obtain ⟨f, hf, hfw⟩ := (((hfound scope).mem i).mp hi).folder
  obtain ⟨g, hg, hgw⟩ := (((hfound scope').mem j).mp hj).folder
  rw [(Prod.mk.inj hkey).2, hf] at hg
  cases hg
  exact hne (workspace_injective (hfw.symm.trans hgw))

theorem mem_found (hfound : ∀ scope, Exact t scope.workspace (found scope)) (i : FolderTreeIssue) :
    i ∈ (auditScopes t).flatMap found ↔ ∃ w, IssueIn t w i := by
  rw [mem_flatMap]
  constructor
  · rintro ⟨scope, -, hi⟩
    exact ⟨_, ((hfound scope).mem i).mp hi⟩
  · rintro ⟨w, hi⟩
    obtain ⟨f, hget, hw⟩ := hi.folder
    obtain ⟨scope, hscope, heq⟩ := exists_auditScope (t.mem_of_get hget)
    refine ⟨scope, hscope, ((hfound scope).mem i).mpr ?_⟩
    rwa [heq, hw]

end Whole

/-- **The audit of the folder tree is exact.** It ends, with any number of rounds from two more than there are folders
on, and whatever the caches drop. Its report is the one of a list of findings that names every kind and folder once and
holds exactly: for each folder whose parent is missing or lies in another workspace that finding, and for each circle
of the parents within a workspace the least folder of it. Every circle has one. -/
theorem folder_audit_exact (t : Table Folder.id) (evict : FolderAuditScope → Eviction) (limit extra : ℕ) :
    ∃ findings : List FolderTreeIssue, auditFolderTreeWithLimit t evict limit (t.rows.length + 2 + extra) =
          .ok { total := findings.length, samples := findings.take limit } ∧
        (findings.map fun i => (i.kind, i.folderId)).Nodup ∧
        (∀ i, i ∈ findings ↔ (∃ f ∈ t.rows, ∃ p, f.parentId = some p ∧ (t.get p = none ∧ i = missingParent f.id p ∨
              ∃ parent, t.get p = some parent ∧ parent.workspace ≠ f.workspace ∧
                i = crossScopeParent f p (nodeOf parent))) ∨
          ∃ w r, Represents (parentWithin t w) r ∧ i = folderCycle r (parentWithin t w r)) ∧
        ∀ w a, Above (parentWithin t w) a a → ∃! r, Represents (parentWithin t w) r ∧ AtOrAbove (parentWithin t w) r a := by
  have hrounds : t.rows.length + 2 ≤ t.rows.length + 2 + extra := by omega
  choose found hok hexact using fun scope => @auditPartition_ok t (evict scope) scope limit _ hrounds
  have hscan : ∀ (mk : ℕ → FolderAuditScope) (ids : List ℕ) (l : List FolderTreeIssue), ids.Nodup →
      ids.length ≤ t.rows.length → ended (scan id integrityBatchSize ids (fun issues rows => rows.foldlM
        (fun issues id => addPartition t evict limit (t.rows.length + 2 + extra) issues (mk id)) issues)
          (t.rows.length + 2 + extra) none (summaryOf limit l)) =
        .ok (summaryOf limit (l ++ ((behind id none ids).map mk).flatMap found)) := by
    intro mk ids l hids hlength
    exact scan_ended (by rwa [map_id]) (length_behind hids hlength hrounds) (addPartitions_eq mk _ l hok)
  refine ⟨(auditScopes t).flatMap found, ?_, nodup_found hexact, fun i => ?_, fun w a ha => ?_⟩
  · have hnone : ({} : AuditFindingSummary) = summaryOf limit [] := by
      rw [summaryOf, take_nil]
      rfl
    have hscopes : (auditScopes t).flatMap found = [] ++ ((behind id none (folderOwners t)).map .user).flatMap found ++
        ((behind id none (folderTeams t)).map .team).flatMap found ++ found .unowned := by
      simp [auditScopes]
    unfold auditFolderTreeWithLimit
    rw [hnone, hscan .user (folderOwners t) [] (nodup_dedup _) length_folderOwners, hscopes]
    show (ended _ >>= _) = _
    rw [hscan .team (folderTeams t) _ (nodup_dedup _) length_folderTeams]
    exact addPartition_eq _ (hok .unowned)
  · rw [mem_found hexact]
    constructor
    · rintro ⟨w, ⟨f, hf, -, hissue⟩ | ⟨r, hr, hi⟩⟩
      · exact .inl ⟨f, hf, parentIssueOf_eq_some.mp hissue⟩
      · exact .inr ⟨w, r, hr, hi⟩
    · rintro (⟨f, hf, hissue⟩ | ⟨w, r, hr, hi⟩)
      · exact ⟨f.workspace, .inl ⟨f, hf, rfl, parentIssueOf_eq_some.mpr hissue⟩⟩
      · exact ⟨w, .inr ⟨r, hr, hi⟩⟩
  · obtain ⟨r, hr, -⟩ := exists_leadsTo ha
    exact ⟨r, ⟨hr.2, hr.1⟩, fun r' hr' => LeadsTo.unique ⟨hr'.2, hr'.1⟩ hr⟩

end AsterDrive.Files.Audit
