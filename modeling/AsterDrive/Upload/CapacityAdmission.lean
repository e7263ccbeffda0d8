import AsterDrive.Placement.PolicySnapshot
import AsterDrive.Placement.Resolve
import AsterDrive.Workspace.FolderPolicy

/-!
# Upload.CapacityAdmission — a target with enough space

`admit_upload_capacity` asks the target of an upload for its capacity. A target that has too little or does not answer is
excluded, and the placement is resolved again without it; a resolution may draw at random. The policies that it excludes
are distinct (`Admission.Inv`), so the loop ends; and where it ends without a target, none is left (`capacity_admission`).

The snapshot is fixed. Metrics are left out; the connectors' answers, the classification of the file and the quota are
parameters.
-/

namespace AsterDrive.Upload.CapacityAdmission

open Db Placement Workspace.FolderPolicy List Option

/-! ### The placement of a new blob -/

/-- `file_classification::classify_file`: extension, compound extension and category. -/
abbrev ClassifyFile := String → String → String × Option String × FileCategory

def contextFromFilename (classifyFile : ClassifyFile) (profileId : ℕ) (filename : String) (fileSize : ℤ)
    (mimeType : String) : StoragePlacementContext :=
  let (extension, compoundExtension, category) := classifyFile filename mimeType
  ⟨profileId, filename, fileSize, extension, compoundExtension, category⟩

structure BlobPolicyRequest where
  scope : WorkspaceStorageScope
  folderHint : Option VerifiedFolderPolicyHint
  filename : String
  fileSize : ℤ
  mimeType : String

section

variable (snapshot : PolicySnapshotData)

def getPolicyOrErr (policyId : ℕ) : Except AsterError StoragePolicy :=
  match snapshot.policiesById policyId with
  | some policy => .ok policy
  | none => .error (.storagePolicyNotFound { message := "policy #" ++ toString policyId })

def policyAvailableForOutbound (policy : StoragePolicy) : Bool :=
  match snapshot.remoteNodeIdByPolicyId policy.id with
  | none => true
  | some none => false
  | some (some node) => node ∈ snapshot.enabledRemoteNodeIds

def placementProfileId (scope : WorkspaceStorageScope) : Except AsterError ℕ :=
  match scope with
  | .personal userId =>
    match snapshot.resolveDefaultPolicyGroupId userId with
    | some id => .ok id
    | none => .error (.storagePolicyNotFound
        { message := "no storage policy group assigned to user #" ++ toString userId })
  | .team teamId _ =>
    match snapshot.teamPolicyGroupByTeamId teamId with
    | some id => .ok id
    | none => .error (.storagePolicyNotFound
        { message := "no storage placement profile in snapshot for team #" ++ toString teamId })

def folderPlacementOverride (folder : Option VerifiedFolderPolicyHint) :
    Except AsterError (Option FolderPlacementOverride) :=
  match folder.bind VerifiedFolderPolicyHint.policyId with
  | none => .ok none
  | some policyId =>
    (getPolicyOrErr snapshot policyId).map fun policy =>
      some ⟨policyId, policy.maxFileSize, policyAvailableForOutbound snapshot policy⟩

def fileSizeExceeds (size limit : ℤ) : AsterError :=
  .fileTooLarge { message := "file size " ++ toString size ++ " exceeds limit " ++ toString limit }

def checkFolderLimit (folder : Option FolderPlacementOverride) (size : ℤ) : Except AsterError Unit :=
  match folder with
  | none => .ok ()
  | some folder =>
    if folder.policyMaxFileSize > 0 ∧ size > folder.policyMaxFileSize then
      .error (fileSizeExceeds size folder.policyMaxFileSize)
    else .ok ()

def snapshotResolvePlacement (rng : ℕ → ℕ) (profileId : ℕ) (context : StoragePlacementContext)
    (folder : Option FolderPlacementOverride) (dynamicExclusions : Exclusions) :
    Except AsterError StorageRoutingDecision :=
  match snapshot.placementProfilesById profileId with
  | none => .error (.storagePolicyNotFound { message := "placement profile #" ++ toString profileId })
  | some profile =>
    match resolvePlacementWithExclusions rng none profile context folder dynamicExclusions with
    | .ok decision => .ok decision
    | .error rejection => .error (.validationError { message := rejection.code ++ ": " ++ toString profileId })

/-- `resolve_new_blob_policy_from_snapshot` -/
def resolveNewBlobPolicy (classifyFile : ClassifyFile) (rng : ℕ → ℕ) (request : BlobPolicyRequest)
    (dynamicExclusions : Exclusions) : Except AsterError (StoragePolicy × StorageRoutingDecision) := do
  let profileId ← placementProfileId snapshot request.scope
  let context := contextFromFilename classifyFile profileId request.filename request.fileSize request.mimeType
  let folder ← folderPlacementOverride snapshot request.folderHint
  checkFolderLimit folder request.fileSize
  let decision ← snapshotResolvePlacement snapshot rng profileId context folder dynamicExclusions
  let policy ← getPolicyOrErr snapshot decision.policyId
  return (policy, decision)

def validatePolicyUploadSize (policy : StoragePolicy) (totalSize : ℤ) : Except AsterError Unit :=
  if policy.maxFileSize > 0 ∧ totalSize > policy.maxFileSize then .error (fileSizeExceeds totalSize policy.maxFileSize)
  else .ok ()

structure InitUploadContext where
  request : BlobPolicyRequest
  policy : StoragePolicy
  routingDecision : StorageRoutingDecision

/-- `resolve_init_upload_context`, once the names are known. -/
def resolveInitUploadContext (classifyFile : ClassifyFile) (rng : ℕ → ℕ) (checkQuota : Except AsterError Unit)
    (request : BlobPolicyRequest) : Except AsterError InitUploadContext := do
  let (policy, routingDecision) ← resolveNewBlobPolicy snapshot classifyFile rng request []
  validatePolicyUploadSize policy request.fileSize
  checkQuota
  return { request, policy, routingDecision }

end

/-! ### Admission -/

inductive StorageCapacityAssessment
  | sufficient (availableBytes : ℤ)
  | insufficient (requiredBytes availableBytes : ℤ)
  | unsupported
  | unavailable

abbrev AssessCapacity := StoragePolicy → ℤ → Except AsterError StorageCapacityAssessment

def capacityUnavailableError (error : AsterError) : AsterError :=
  match error.payload.storageKind with
  | some .transient | some .rateLimited => error.withApiErrorCode .uploadCapacityUnavailable
  | _ =>
    match error with
    | .internalError payload =>
      (AsterError.ofStorage .transient ("capacity probe coordination failed: " ++ payload.message)).withApiErrorCode
        .uploadCapacityUnavailable
    | error => error

/-- The variables of the loop, and the policies that were asked. -/
structure Admission where
  ctx : InitUploadContext
  dynamicExclusions : Exclusions := []
  insufficientError : Option AsterError := none
  unavailableError : Option AsterError := none
  probes : List ℕ := []

def insufficientCapacity (policyId : ℕ) (requiredBytes availableBytes : ℤ) : AsterError :=
  .uploadTargetCapacityInsufficient
    { message := "storage policy #" ++ toString policyId ++ " has " ++ toString availableBytes
        ++ " bytes available but upload requires " ++ toString requiredBytes ++ " bytes" }

def noUsableByteCount : AsterError :=
  (AsterError.ofStorage .transient "capacity probe returned no usable available byte count").withApiErrorCode
    .uploadCapacityUnavailable

namespace Admission

def exclude (a : Admission) (reason : TargetExclusionReason) : Admission :=
  { a with dynamicExclusions := a.dynamicExclusions ++ [(a.ctx.policy.id, reason)] }

/-- One assessment; `none` admits the upload. -/
def assess (assessCapacity : AssessCapacity) (a : Admission) : Option Admission :=
  match assessCapacity a.ctx.policy a.ctx.request.fileSize with
  | .ok (.sufficient _) | .ok .unsupported => none
  | .ok (.insufficient requiredBytes availableBytes) =>
    some { a.exclude .capacityInsufficient with
      insufficientError := a.insufficientError.or (some (insufficientCapacity a.ctx.policy.id requiredBytes availableBytes)) }
  | .ok .unavailable =>
    some { a.exclude .capacityUnavailable with unavailableError := a.unavailableError.or (some noUsableByteCount) }
  | .error error =>
    some { a.exclude .capacityUnavailable with
      unavailableError := a.unavailableError.or (some (capacityUnavailableError error)) }

def probe (a : Admission) : Admission := { a with probes := a.probes ++ [a.ctx.policy.id] }

def terminalError (a : Admission) : AsterError :=
  (a.unavailableError.or a.insufficientError).getD
    (.internalError { message := "capacity admission ended without a terminal error" })

end Admission

/-- `admit_upload_capacity`; `draws k` are the numbers of the resolution after the `k`-th assessment. -/
def admitUploadCapacity (snapshot : PolicySnapshotData) (classifyFile : ClassifyFile) (assessCapacity : AssessCapacity) :
    ℕ → (ℕ → ℕ → ℕ) → Admission → Option (Except AsterError InitUploadContext × List ℕ)
  | 0, _, _ => none
  | fuel + 1, draws, a =>
    match a.probe.assess assessCapacity with
    | none => some (.ok a.ctx, a.probe.probes)
    | some a' =>
      match resolveNewBlobPolicy snapshot classifyFile (draws 0) a'.ctx.request a'.dynamicExclusions with
      | .error _ => some (.error a'.terminalError, a'.probes)
      | .ok (policy, routingDecision) =>
        match validatePolicyUploadSize policy a'.ctx.request.fileSize with
        | .error error => some (.error error, a'.probes)
        | .ok () =>
          admitUploadCapacity snapshot classifyFile assessCapacity fuel (fun k => draws (k + 1))
            { a' with ctx := { a'.ctx with policy, routingDecision } }

/-! ### Snapshots -/

/-- What a loaded snapshot keeps: its policies are under their ids, and its targets have them. -/
structure Coherent (snapshot : PolicySnapshotData) : Prop where
  keyed : ∀ id policy, snapshot.policiesById id = some policy → policy.id = id
  targets : ∀ id profile, snapshot.placementProfilesById id = some profile → ∀ rule ∈ profile.rules,
    ∀ target ∈ rule.targets, ∃ policy, snapshot.policiesById target.policyId = some policy ∧
      policy.maxFileSize = target.policyMaxFileSize

section Load

variable {connectors : Connectors} {routing : Routing} {tables : Tables} {remoteNodeId : ℕ → Option (Option ℕ)}
variable {snapshot : PolicySnapshotData}

theorem mem_targetsOfRule {ruleId : ℕ} {target : PlacementTarget}
    (h : target ∈ targetsOfRule connectors routing remoteNodeId ruleId) :
    ∃ policy, routing.policies.get target.policyId = some policy ∧ policy.maxFileSize = target.policyMaxFileSize := by
  obtain ⟨row, -, hrow⟩ := mem_filterMap.mp h
  unfold compileTarget at hrow
  split at hrow
  · rename_i policy weight stableOrder hpolicy _ _
    cases hrow
    exact ⟨policy, hpolicy, rfl⟩
  · cases hrow

theorem targets_of_compileRule {row : StoragePolicyGroupRule} {rule : PlacementRule}
    (h : compileRule connectors routing remoteNodeId row = some rule) :
    rule.targets = targetsOfRule connectors routing remoteNodeId row.id := by
  unfold compileRule at h
  split at h
  · cases h
  · split at h
    · cases h
    · split at h
      · cases h
        rfl
      · cases h

theorem rules_of_compileProfile {group : StoragePolicyGroup} {profile : CompiledPlacementProfile}
    (h : compileProfile connectors routing remoteNodeId group = some profile) :
    profile.rules = rulesOfGroup connectors routing remoteNodeId group.id := by
  unfold compileProfile at h
  split at h
  · cases h
  · split at h
    · cases h
      rfl
    · cases h

/-- **A loaded snapshot is coherent.** -/
theorem load_coherent (h : load connectors tables = .ok snapshot) : Coherent snapshot := by
  unfold load at h
  dsimp only at h
  split at h
  · cases h
  · cases h
    refine ⟨fun id policy hpolicy => Table.key_of_get hpolicy, fun id profile hprofile rule hrule target htarget => ?_⟩
    obtain ⟨group, -, hcompiled⟩ := bind_eq_some_iff.mp hprofile
    rw [rules_of_compileProfile hcompiled] at hrule
    obtain ⟨row, -, hrow⟩ := mem_filterMap.mp hrule
    rw [targets_of_compileRule hrow] at htarget
    exact mem_targetsOfRule htarget

end Load

/-! ### One resolution -/

section

variable {snapshot : PolicySnapshotData} {classifyFile : ClassifyFile} {request : BlobPolicyRequest} {rng : ℕ → ℕ}
variable {profile : CompiledPlacementProfile} {context : StoragePlacementContext} {policy : StoragePolicy}
variable {folder : Option FolderPlacementOverride} {dynamicExclusions : Exclusions} {decision : StorageRoutingDecision}

theorem getPolicyOrErr_ok {policyId : ℕ} :
    getPolicyOrErr snapshot policyId = .ok policy ↔ snapshot.policiesById policyId = some policy := by
  unfold getPolicyOrErr
  cases snapshot.policiesById policyId with
  | some found => exact ⟨fun h => congrArg some (Except.ok.inj h), fun h => congrArg Except.ok (some.inj h)⟩
  | none => exact ⟨(fun h => nomatch h), (fun h => nomatch h)⟩

/-- What the snapshot says of a request, whatever is excluded or drawn. -/
structure Routed (snapshot : PolicySnapshotData) (classifyFile : ClassifyFile) (request : BlobPolicyRequest)
    (profile : CompiledPlacementProfile) (context : StoragePlacementContext) (folder : Option FolderPlacementOverride) :
    Prop where
  group : ∃ id, placementProfileId snapshot request.scope = .ok id ∧ snapshot.placementProfilesById id = some profile ∧
    context = contextFromFilename classifyFile id request.filename request.fileSize request.mimeType
  override : folderPlacementOverride snapshot request.folderHint = .ok folder
  limit : checkFolderLimit folder request.fileSize = .ok ()

theorem snapshotResolvePlacement_ok {profileId : ℕ} (hprofile : snapshot.placementProfilesById profileId = some profile) :
    snapshotResolvePlacement snapshot rng profileId context folder dynamicExclusions = .ok decision ↔
      resolvePlacementWithExclusions rng none profile context folder dynamicExclusions = .ok decision := by
  unfold snapshotResolvePlacement
  rw [hprofile]
  dsimp only
  cases resolvePlacementWithExclusions rng none profile context folder dynamicExclusions with
  | ok found =>
    exact ⟨fun h => congrArg Except.ok (Except.ok.inj h), fun h => congrArg Except.ok (Except.ok.inj h)⟩
  | error rejection => exact ⟨(fun h => nomatch h), (fun h => nomatch h)⟩

theorem routed_of_resolved
    (h : resolveNewBlobPolicy snapshot classifyFile rng request dynamicExclusions = .ok (policy, decision)) :
    ∃ profile context folder, Routed snapshot classifyFile request profile context folder := by
  obtain ⟨profileId, hgroup, h⟩ := bind_ok h
  obtain ⟨folder, hfolder, h⟩ := bind_ok h
  obtain ⟨⟨⟩, hlimit, h⟩ := bind_ok h
  obtain ⟨decision', hdecision, -⟩ := bind_ok h
  unfold snapshotResolvePlacement at hdecision
  split at hdecision
  · cases hdecision
  · rename_i profile hprofile
    exact ⟨profile, _, folder, ⟨profileId, hgroup, hprofile, rfl⟩, hfolder, hlimit⟩

/-- **The spec of a resolution** -/
theorem Routed.resolved (h : Routed snapshot classifyFile request profile context folder) :
    resolveNewBlobPolicy snapshot classifyFile rng request dynamicExclusions = .ok (policy, decision) ↔
      resolvePlacementWithExclusions rng none profile context folder dynamicExclusions = .ok decision ∧
        snapshot.policiesById decision.policyId = some policy := by
  obtain ⟨profileId, hgroup, hprofile, hcontext⟩ := h.group
  constructor
  · intro hresolved
    obtain ⟨id, hid, hresolved⟩ := bind_ok hresolved
    obtain rfl := Except.ok.inj (hgroup.symm.trans hid)
    obtain ⟨found, hfound, hresolved⟩ := bind_ok hresolved
    obtain rfl := Except.ok.inj (h.override.symm.trans hfound)
    obtain ⟨⟨⟩, -, hresolved⟩ := bind_ok hresolved
    obtain ⟨decision', hdecision, hresolved⟩ := bind_ok hresolved
    obtain ⟨policy', hpolicy, hresolved⟩ := bind_ok hresolved
    cases hresolved
    rw [← hcontext] at hdecision
    exact ⟨(snapshotResolvePlacement_ok hprofile).mp hdecision, (getPolicyOrErr_ok).mp hpolicy⟩
  · rintro ⟨hdecision, hpolicy⟩
    have hfound := (snapshotResolvePlacement_ok hprofile).mpr hdecision
    rw [hcontext] at hfound
    refine bind_ok_iff.mpr ⟨profileId, hgroup, bind_ok_iff.mpr ⟨folder, h.override, bind_ok_iff.mpr ⟨(), h.limit, ?_⟩⟩⟩
    exact bind_ok_iff.mpr ⟨decision, hfound, bind_ok_iff.mpr ⟨policy, (getPolicyOrErr_ok).mpr hpolicy, rfl⟩⟩

theorem mem_of_decidingRule {rule : PlacementRule} (rules : List PlacementRule)
    (h : decidingRule context dynamicExclusions rules = some rule) : rule ∈ rules := by
  induction rules with
  | nil => cases h
  | cons first rules ih =>
    unfold decidingRule at h
    split_ifs at h
    · exact mem_cons_of_mem _ (ih h)
    · exact mem_cons_of_mem _ (ih h)
    · cases h
      exact mem_cons_self

/-- The policies that a request can be routed to. -/
def reachable (profile : CompiledPlacementProfile) (folder : Option FolderPlacementOverride) : List ℕ :=
  (folder.map FolderPlacementOverride.policyId).toList ++
    profile.rules.flatMap fun rule => rule.targets.map PlacementTarget.policyId

theorem Routed.selected (h : Routed snapshot classifyFile request profile context folder) (hsnapshot : Coherent snapshot)
    (hdecision : resolvePlacementWithExclusions rng none profile context folder dynamicExclusions = .ok decision) :
    decision.policyId ∈ reachable profile folder ∧ excludedBy dynamicExclusions decision.policyId = none ∧
      ∃ policy, snapshot.policiesById decision.policyId = some policy ∧ policy.id = decision.policyId ∧
        validatePolicyUploadSize policy request.fileSize = .ok () := by
  obtain ⟨hplaceable, hcandidate⟩ := resolve_ok hdecision
  obtain ⟨profileId, -, hprofile, hcontext⟩ := h.group
  have hsize : context.fileSize = request.fileSize := by
    rw [hcontext]
    rfl
  refine ⟨?_, hcandidate.not_excluded hplaceable, ?_⟩
  · cases folder with
    | some folder =>
      have hid : decision.policyId = folder.policyId := hcandidate
      rw [hid]
      exact mem_append_left _ (mem_singleton_self _)
    | none =>
      obtain ⟨rule, hrule, target, htarget, hid⟩ := hcandidate
      rw [← hid]
      refine mem_append_right _ (mem_flatMap.mpr ⟨rule, mem_of_decidingRule profile.rules hrule, ?_⟩)
      exact List.mem_map_of_mem (mem_eligibleTargets.mp htarget).1
  · cases folder with
    | some folder =>
      have hid : decision.policyId = folder.policyId := hcandidate
      have hfolder := h.override
      unfold folderPlacementOverride at hfolder
      split at hfolder
      · cases hfolder
      · rename_i policyId _
        obtain ⟨policy, hpolicy, hsame⟩ := mapped_ok_iff.mp hfolder
        cases hsame
        have hfound := (getPolicyOrErr_ok).mp hpolicy
        rw [hid]
        refine ⟨policy, hfound, hsnapshot.keyed _ policy hfound, ?_⟩
        have hlimit := (hplaceable.folder _ rfl).2.1
        rw [hsize] at hlimit
        exact if_neg hlimit
    | none =>
      obtain ⟨rule, hrule, target, htarget, hid⟩ := hcandidate
      obtain ⟨hmem, hconsider⟩ := mem_eligibleTargets.mp htarget
      obtain ⟨policy, hpolicy, hmax⟩ := hsnapshot.targets _ profile hprofile rule (mem_of_decidingRule profile.rules hrule)
        target hmem
      rw [← hid]
      refine ⟨policy, hpolicy, hsnapshot.keyed _ policy hpolicy, if_neg fun hlimit => ?_⟩
      rw [hmax, ← hsize] at hlimit
      exact eligibleFor_limit (considerTarget_ok.mp hconsider).2 hlimit

end

/-! ### The loop -/

/-- The policy has enough space, or no way to say. -/
def Admits (assessCapacity : AssessCapacity) (size : ℤ) (policy : StoragePolicy) : Prop :=
  (∃ availableBytes, assessCapacity policy size = .ok (.sufficient availableBytes)) ∨
    assessCapacity policy size = .ok .unsupported

/-- A policy of the snapshot that was asked and does not admit. -/
def Poor (snapshot : PolicySnapshotData) (assessCapacity : AssessCapacity) (size : ℤ) (policyId : ℕ) : Prop :=
  ∃ policy, snapshot.policiesById policyId = some policy ∧ ¬ Admits assessCapacity size policy

section

variable {snapshot : PolicySnapshotData} {classifyFile : ClassifyFile} {assessCapacity : AssessCapacity}
variable {request : BlobPolicyRequest} {profile : CompiledPlacementProfile} {context : StoragePlacementContext}
variable {folder : Option FolderPlacementOverride} {a a' : Admission} {dynamicExclusions : Exclusions} {policyId : ℕ}

theorem assess_none (h : a.assess assessCapacity = none) : Admits assessCapacity a.ctx.request.fileSize a.ctx.policy := by
  unfold Admission.assess at h
  split at h
  · rename_i availableBytes hsufficient
    exact .inl ⟨availableBytes, hsufficient⟩
  · rename_i hunsupported
    exact .inr hunsupported
  all_goals cases h

theorem assess_some (h : a.assess assessCapacity = some a') :
    ¬ Admits assessCapacity a.ctx.request.fileSize a.ctx.policy ∧ a'.ctx = a.ctx ∧ a'.probes = a.probes ∧
      ∃ reason, a'.dynamicExclusions = a.dynamicExclusions ++ [(a.ctx.policy.id, reason)] := by
  unfold Admission.assess at h
  cases hanswer : assessCapacity a.ctx.policy a.ctx.request.fileSize with
  | error error =>
    rw [hanswer] at h
    cases h
    exact ⟨by simp [Admits, hanswer], rfl, rfl, _, rfl⟩
  | ok assessment =>
    rw [hanswer] at h
    cases assessment with
    | sufficient availableBytes | unsupported => cases h
    | insufficient requiredBytes availableBytes | unavailable =>
      cases h
      exact ⟨by simp [Admits, hanswer], rfl, rfl, _, rfl⟩

theorem excludedBy_eq_none : excludedBy dynamicExclusions policyId = none ↔ policyId ∉ dynamicExclusions.map Prod.fst := by
  unfold excludedBy
  rw [map_eq_none_iff, find?_eq_none]
  constructor
  · intro h hmem
    obtain ⟨excluded, hexcluded, hid⟩ := List.mem_map.mp hmem
    exact h excluded hexcluded (decide_eq_true hid)
  · intro h excluded hexcluded hid
    exact h (List.mem_map.mpr ⟨excluded, hexcluded, of_decide_eq_true hid⟩)

/-- What holds before each assessment. -/
structure Admission.Inv (snapshot : PolicySnapshotData) (assessCapacity : AssessCapacity) (request : BlobPolicyRequest)
    (profile : CompiledPlacementProfile) (context : StoragePlacementContext) (folder : Option FolderPlacementOverride)
    (a : Admission) : Prop where
  sameRequest : a.ctx.request = request
  resolved : ∃ rng, resolvePlacementWithExclusions rng none profile context folder a.dynamicExclusions
    = .ok a.ctx.routingDecision
  policy : snapshot.policiesById a.ctx.routingDecision.policyId = some a.ctx.policy
  id : a.ctx.policy.id = a.ctx.routingDecision.policyId
  fits : validatePolicyUploadSize a.ctx.policy request.fileSize = .ok ()
  probes : a.probes = a.dynamicExclusions.map Prod.fst
  once : a.probes.Nodup
  inReach : ∀ id ∈ a.probes, id ∈ reachable profile folder
  poor : ∀ id ∈ a.probes, Poor snapshot assessCapacity request.fileSize id

/-- What the loop ends with. -/
structure Outcome (snapshot : PolicySnapshotData) (assessCapacity : AssessCapacity) (request : BlobPolicyRequest)
    (profile : CompiledPlacementProfile) (context : StoragePlacementContext) (folder : Option FolderPlacementOverride)
    (result : Except AsterError InitUploadContext) (probes : List ℕ) : Prop where
  once : probes.Nodup
  admitted : ∀ ctx, result = .ok ctx → Admits assessCapacity request.fileSize ctx.policy ∧
    snapshot.policiesById ctx.policy.id = some ctx.policy ∧ validatePolicyUploadSize ctx.policy request.fileSize = .ok () ∧
    ∃ rng dynamicExclusions, probes = dynamicExclusions.map Prod.fst ++ [ctx.policy.id] ∧
      (∀ excluded ∈ dynamicExclusions, Poor snapshot assessCapacity request.fileSize excluded.1) ∧
      resolvePlacementWithExclusions rng none profile context folder dynamicExclusions = .ok ctx.routingDecision ∧
      ctx.routingDecision.policyId = ctx.policy.id
  exhausted : ∀ error, result = .error error → ∀ poor : Exclusions,
    (∀ id, Poor snapshot assessCapacity request.fileSize id → excludedBy poor id ≠ none) →
      ∀ rng decision, resolvePlacementWithExclusions rng none profile context folder poor ≠ .ok decision

section

variable (h : a.Inv snapshot assessCapacity request profile context folder)
  (hrouted : Routed snapshot classifyFile request profile context folder)
  (hsnapshot : Coherent snapshot)
include h hrouted hsnapshot

theorem Admission.Inv.fresh : a.ctx.policy.id ∉ a.probes ∧ a.ctx.policy.id ∈ reachable profile folder := by
  obtain ⟨rng, hresolved⟩ := h.resolved
  obtain ⟨hreachable, hfree, -⟩ := hrouted.selected hsnapshot hresolved
  rw [h.id, h.probes]
  exact ⟨(excludedBy_eq_none).mp hfree, hreachable⟩

theorem Admission.Inv.excluded (hassess : a.probe.assess assessCapacity = some a') :
    a'.ctx = a.ctx ∧ a'.probes = a.probes ++ [a.ctx.policy.id] ∧ a'.probes = a'.dynamicExclusions.map Prod.fst ∧
      a'.probes.Nodup ∧ (∀ id ∈ a'.probes, id ∈ reachable profile folder) ∧
      ∀ id ∈ a'.probes, Poor snapshot assessCapacity request.fileSize id := by
  obtain ⟨hrefused, hctx, hprobes, reason, hexclusions⟩ := assess_some hassess
  obtain ⟨hfresh, hreachable⟩ := h.fresh hrouted hsnapshot
  have hprobes : a'.probes = a.probes ++ [a.ctx.policy.id] := hprobes
  have hpoor : Poor snapshot assessCapacity request.fileSize a.ctx.policy.id := by
    refine ⟨a.ctx.policy, ?_, ?_⟩
    · rw [h.id]
      exact h.policy
    · rw [← h.sameRequest]
      exact hrefused
  refine ⟨hctx, hprobes, ?_, ?_, ?_, ?_⟩
  · rw [hprobes, hexclusions, map_append, h.probes]
    rfl
  · rw [hprobes]
    exact nodup_append.mpr ⟨h.once, nodup_singleton _, fun x hx y hy => by
      rw [mem_singleton.mp hy]
      exact fun heq => hfresh (heq ▸ hx)⟩
  · rw [hprobes]
    intro id hid
    rcases mem_append.mp hid with hid | hid
    · exact h.inReach id hid
    · rw [mem_singleton.mp hid]
      exact hreachable
  · rw [hprobes]
    intro id hid
    rcases mem_append.mp hid with hid | hid
    · exact h.poor id hid
    · rw [mem_singleton.mp hid]
      exact hpoor

theorem Admission.Inv.admitted (hassess : a.probe.assess assessCapacity = none) :
    Outcome snapshot assessCapacity request profile context folder (.ok a.ctx) a.probe.probes := by
  have hadmits := assess_none hassess
  obtain ⟨hfresh, -⟩ := h.fresh hrouted hsnapshot
  refine ⟨?_, ?_, (fun _ herror => nomatch herror)⟩
  · exact nodup_append.mpr ⟨h.once, nodup_singleton _, fun x hx y hy => by
      rw [mem_singleton.mp hy]
      exact fun heq => hfresh (heq ▸ hx)⟩
  · intro ctx hctx
    cases hctx
    obtain ⟨rng, hresolved⟩ := h.resolved
    refine ⟨?_, ?_, h.fits, rng, a.dynamicExclusions, ?_, ?_, hresolved, h.id.symm⟩
    · rw [← h.sameRequest]
      exact hadmits
    · rw [h.id]
      exact h.policy
    · rw [← h.probes]
      rfl
    · intro excluded hmem
      apply h.poor
      rw [h.probes]
      exact List.mem_map_of_mem hmem

end

/-- **The loop ends, and with the outcome that it should.** -/
theorem Admission.Inv.run (hrouted : Routed snapshot classifyFile request profile context folder)
    (hsnapshot : Coherent snapshot) (fuel : ℕ) (draws : ℕ → ℕ → ℕ) (a : Admission)
    (h : a.Inv snapshot assessCapacity request profile context folder)
    (hfuel : (reachable profile folder).length < fuel + a.probes.length) :
    ∃ result probes, admitUploadCapacity snapshot classifyFile assessCapacity fuel draws a = some (result, probes) ∧
      Outcome snapshot assessCapacity request profile context folder result probes := by
  induction fuel generalizing draws a with
  | zero =>
    have hle := (h.once.subperm h.inReach).length_le
    omega
  | succ fuel ih =>
    simp only [admitUploadCapacity]
    cases hassess : a.probe.assess assessCapacity with
    | none => exact ⟨_, _, rfl, h.admitted hrouted hsnapshot hassess⟩
    | some a' =>
      obtain ⟨hctx, hprobes, hexclusions, honce, hreachable, hpoor⟩ := h.excluded hrouted hsnapshot hassess
      have hrequest : a'.ctx.request = request := by
        rw [hctx]
        exact h.sameRequest
      dsimp only
      rw [hrequest]
      cases hresolve : resolveNewBlobPolicy snapshot classifyFile (draws 0) request a'.dynamicExclusions with
      | error error =>
        refine ⟨_, _, rfl, honce, (fun _ hok => nomatch hok), fun _ _ poor hall rng decision hdecision => ?_⟩
        have hexcludes : Excludes a'.dynamicExclusions poor := by
          intro id hnone
          apply (excludedBy_eq_none).mpr
          rw [← hexclusions]
          exact fun hid => hall id (hpoor id hid) hnone
        obtain ⟨next, hnext⟩ : ∃ next, resolvePlacementWithExclusions (draws 0) none profile context folder
            a'.dynamicExclusions = .ok next := resolve_of_placeable (hexcludes.placeable (resolve_ok hdecision).1)
        obtain ⟨-, -, policy, hpolicy, -⟩ := hrouted.selected hsnapshot hnext
        rw [hrouted.resolved.mpr ⟨hnext, hpolicy⟩] at hresolve
        cases hresolve
      | ok found =>
        obtain ⟨policy, decision⟩ := found
        obtain ⟨hdecision, hpolicy⟩ := hrouted.resolved.mp hresolve
        obtain ⟨-, -, policy', hpolicy', hid, hfits⟩ := hrouted.selected hsnapshot hdecision
        obtain rfl := some.inj (hpolicy.symm.trans hpolicy')
        dsimp only
        rw [hfits]
        refine ih _ _ ⟨rfl, ⟨draws 0, hdecision⟩, hpolicy, hid, hfits, hexclusions, honce, hreachable, hpoor⟩ ?_
        show _ < fuel + a'.probes.length
        rw [hprobes, length_append, length_singleton]
        omega

theorem inv_start {ctx : InitUploadContext} {rng : ℕ → ℕ} {checkQuota : Except AsterError Unit}
    (hrouted : Routed snapshot classifyFile request profile context folder) (hsnapshot : Coherent snapshot)
    (h : resolveInitUploadContext snapshot classifyFile rng checkQuota request = .ok ctx) :
    ({ ctx } : Admission).Inv snapshot assessCapacity request profile context folder := by
  obtain ⟨⟨policy, decision⟩, hresolved, h⟩ := bind_ok h
  obtain ⟨⟨⟩, hfits, h⟩ := bind_ok h
  obtain ⟨⟨⟩, -, h⟩ := bind_ok h
  cases h
  obtain ⟨hdecision, hpolicy⟩ := hrouted.resolved.mp hresolved
  exact ⟨rfl, ⟨rng, hdecision⟩, hpolicy, hsnapshot.keyed _ policy hpolicy, hfits, rfl, .nil, (fun _ h => nomatch h),
    (fun _ h => nomatch h)⟩

/-- **The admission asks each policy at most once, ends, and finds a target if there is one.** It takes at most one round
more than there are policies to which the request can be routed, whatever is drawn. -/
theorem capacity_admission {ctx : InitUploadContext} {rng : ℕ → ℕ} {checkQuota : Except AsterError Unit}
    (hsnapshot : Coherent snapshot)
    (h : resolveInitUploadContext snapshot classifyFile rng checkQuota request = .ok ctx) :
    ∃ profile context folder, Routed snapshot classifyFile request profile context folder ∧
      ∀ (draws : ℕ → ℕ → ℕ) (fuel : ℕ), (reachable profile folder).length < fuel →
        ∃ result probes, admitUploadCapacity snapshot classifyFile assessCapacity fuel draws { ctx } = some (result, probes) ∧
          Outcome snapshot assessCapacity request profile context folder result probes := by
  obtain ⟨⟨policy, decision⟩, hresolved, -⟩ := bind_ok h
  obtain ⟨profile, context, folder, hrouted⟩ := routed_of_resolved hresolved
  exact ⟨profile, context, folder, hrouted, fun draws fuel hfuel =>
    Admission.Inv.run hrouted hsnapshot fuel draws { ctx } (inv_start hrouted hsnapshot h) hfuel⟩

end

/-! ### Two targets -/

def policyOf (id : ℕ) : StoragePolicy := ⟨id, "", "local", "", 0, "", false, 0⟩

def twoTargets : CompiledPlacementProfile :=
  ⟨7, 1, true, {}, .automatic, [⟨11, "all", "", 1, true, {}, .firstAvailable, .nextRule,
    [⟨1, 101, 100, 1, true, 0, none⟩, ⟨2, 102, 100, 2, true, 0, none⟩]⟩]⟩

def twoTargetsSnapshot : PolicySnapshotData where
  generation := 1
  policiesById id := if id = 101 ∨ id = 102 then some (policyOf id) else none
  policyGroupsById _ := none
  placementProfilesById id := if id = 7 then some twoTargets else none
  userPolicyGroupByUserId _ := some 7
  teamPolicyGroupByTeamId _ := none
  enabledRemoteNodeIds := []
  remoteNodeIdByPolicyId _ := none
  systemDefaultPolicyGroupId := some 7
  systemDefaultPolicyId := some 101

theorem twoTargetsSnapshot_coherent : Coherent twoTargetsSnapshot where
  keyed id policy h := by
    obtain ⟨-, hpolicy⟩ := ite_none_right_eq_some.mp h
    cases hpolicy
    rfl
  targets id profile h := by
    obtain ⟨-, hprofile⟩ := ite_none_right_eq_some.mp h
    cases hprofile
    intro rule hrule target htarget
    obtain rfl := mem_singleton.mp hrule
    rcases mem_cons.mp htarget with rfl | htarget
    · exact ⟨policyOf 101, rfl, rfl⟩
    · obtain rfl := mem_singleton.mp htarget
      exact ⟨policyOf 102, rfl, rfl⟩

def plainFile : ClassifyFile := fun _ _ => ("bin", none, .other)

def tenBytes : BlobPolicyRequest := ⟨.personal 1, none, "x.bin", 10, "application/octet-stream"⟩

/-- The first target has nine bytes left. -/
def nineLeft : AssessCapacity := fun policy size =>
  if policy.id = 101 then .ok (.insufficient size 9) else .ok .unsupported

def firstDecision : StorageRoutingDecision :=
  ⟨7, 1, some 11, 101, .firstAvailable, false, .automatic, [], [⟨11, true, none⟩]⟩

def secondDecision : StorageRoutingDecision :=
  ⟨7, 1, some 11, 102, .firstAvailable, false, .automatic, [(101, .capacityInsufficient)], [⟨11, true, none⟩]⟩

theorem capacity_admission_second : resolveInitUploadContext twoTargetsSnapshot plainFile id (.ok ()) tenBytes
        = .ok ⟨tenBytes, policyOf 101, firstDecision⟩ ∧
      ∃ profile context folder, Routed twoTargetsSnapshot plainFile tenBytes profile context folder ∧
        ∀ (draws : ℕ → ℕ → ℕ) (fuel : ℕ), (reachable profile folder).length < fuel →
          ∃ result probes, admitUploadCapacity twoTargetsSnapshot plainFile nineLeft fuel draws
              { ctx := ⟨tenBytes, policyOf 101, firstDecision⟩ } = some (result, probes) ∧
            Outcome twoTargetsSnapshot nineLeft tenBytes profile context folder result probes :=
  have hinit : resolveInitUploadContext twoTargetsSnapshot plainFile id (.ok ()) tenBytes
      = .ok ⟨tenBytes, policyOf 101, firstDecision⟩ := rfl
  ⟨hinit, capacity_admission twoTargetsSnapshot_coherent hinit⟩

/-- The second target is admitted, but without exclusions the resolver selects only the first one. -/
theorem admitted_not_selected : admitUploadCapacity twoTargetsSnapshot plainFile nineLeft 3 (fun _ n => n - 1)
        { ctx := ⟨tenBytes, policyOf 101, firstDecision⟩ }
        = some (.ok ⟨tenBytes, policyOf 102, secondDecision⟩, [101, 102]) ∧
      ∀ rng, resolvePlacement rng twoTargets (contextFromFilename plainFile 7 "x.bin" 10 "application/octet-stream") none
        = .ok firstDecision ∧ firstDecision.policyId ≠ (policyOf 102).id :=
  ⟨rfl, fun _ => ⟨rfl, by decide⟩⟩

end AsterDrive.Upload.CapacityAdmission
