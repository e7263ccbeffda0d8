import Mathlib.Data.List.MinMax
import AsterDrive.Lib.Endpoints
import AsterDrive.Placement.Profile
import Mathlib.Algebra.GroupWithZero.Nat
import Mathlib.Algebra.Group.Int.Defs

/-!
# Placement.Resolve — the target of a new file

`resolvePlacementInternal` goes through the rules of a compiled profile: the first rule that matches and has an eligible
target decides. Which target it is may depend on a random number, but not whether there is one (`resolve_succeeds`).
`maximumAdmittedFileSize` tries the resolver on the ends of the intervals of sizes (`maximumAdmittedFileSize_exact`).
-/

namespace AsterDrive.Placement

open List Option

/-! ### The resolver -/

structure StoragePlacementContext where
  profileId : ℕ
  filename : String
  fileSize : ℤ
  extension : String
  compoundExtension : Option String
  category : FileCategory

structure FolderPlacementOverride where
  policyId : ℕ
  policyMaxFileSize : ℤ
  isAvailable : Bool

structure PlacementRuleEvaluation where
  ruleId : ℕ
  matched : Bool
  reasonCode : Option String

/-- Policies that something outside the profile excludes, with the reason. -/
abbrev Exclusions := List (ℕ × TargetExclusionReason)

structure StorageRoutingDecision where
  profileId : ℕ
  revision : ℤ
  ruleId : Option ℕ
  policyId : ℕ
  selectionMode : PlacementSelectionMode
  folderOverride : Bool
  executionPreference : UploadExecutionPreference
  excludedTargets : Exclusions
  evaluatedRules : List PlacementRuleEvaluation

inductive PlacementRejection
  | profileDisabled | admissionExtensionDenied | admissionCategoryDenied | admissionExtensionlessDenied
  | admissionFileTooLarge | noMatchingRule | noEligibleTarget | folderPolicyUnavailable | folderPolicyFileTooLarge
  deriving DecidableEq

def PlacementRejection.code : PlacementRejection → String
  | .profileDisabled => "placement_profile_disabled"
  | .admissionExtensionDenied => "placement_extension_denied"
  | .admissionCategoryDenied => "placement_category_denied"
  | .admissionExtensionlessDenied => "placement_extensionless_denied"
  | .admissionFileTooLarge => "placement_file_too_large"
  | .noMatchingRule => "placement_no_matching_rule"
  | .noEligibleTarget => "placement_no_eligible_target"
  | .folderPolicyUnavailable => "folder_policy_unavailable"
  | .folderPolicyFileTooLarge => "folder_policy_file_too_large"

inductive PlacementResolution
  | selected (decision : StorageRoutingDecision)
  | rejected (rejection : PlacementRejection) (evaluatedRules : List PlacementRuleEvaluation)
      (excludedTargets : Exclusions)

def PlacementTarget.eligibleFor (target : PlacementTarget) (fileSize : ℤ) : Except TargetExclusionReason Unit :=
  if !target.acceptingNewWrites then .error .draining
  else
    match target.exclusion with
    | some reason => .error reason
    | none =>
      if target.policyMaxFileSize > 0 ∧ fileSize > target.policyMaxFileSize then .error .policyFileSizeExceeded
      else if target.weight = 0 then .error .incompatible
      else .ok ()

/-- The extension of the file or its compound one, such as `tar.gz`. -/
def hasExtension (context : StoragePlacementContext) (value : String) : Bool :=
  value = context.extension || context.compoundExtension = some value

def applyAdmission (admission : StorageAdmissionConstraints) (context : StoragePlacementContext) :
    Except PlacementRejection Unit :=
  if context.extension = "" ∧ (admission.allowedExtensions ≠ [] ∨ !admission.acceptExtensionless) then
    .error .admissionExtensionlessDenied
  else if context.extension ≠ "" ∧ admission.deniedExtensions.any (hasExtension context) then
    .error .admissionExtensionDenied
  else if context.extension ≠ "" ∧ admission.allowedExtensions ≠ [] ∧
      !admission.allowedExtensions.any (hasExtension context) then
    .error .admissionExtensionDenied
  else if admission.allowedCategories ≠ [] ∧ context.category ∉ admission.allowedCategories then
    .error .admissionCategoryDenied
  else .ok ()

def matchesMatcher (matcher : PlacementMatcher) (context : StoragePlacementContext) : Bool :=
  if context.fileSize < matcher.minFileSize ∨ (matcher.maxFileSize > 0 ∧ context.fileSize ≥ matcher.maxFileSize) then false
  else if ∃ extensionless ∈ matcher.extensionless, extensionless ≠ decide (context.extension = "") then false
  else if matcher.extensions ≠ [] ∧ !matcher.extensions.any (hasExtension context) then false
  else if matcher.compoundExtensions ≠ [] ∧ ¬ ∃ compound ∈ context.compoundExtension, compound ∈ matcher.compoundExtensions
    then false
  else decide (matcher.categories = [] ∨ context.category ∈ matcher.categories)

def excludedBy (dynamicExclusions : Exclusions) (policyId : ℕ) : Option TargetExclusionReason :=
  (dynamicExclusions.find? fun excluded => excluded.1 = policyId).map Prod.snd

/-- A dynamic exclusion comes before what the target itself says. -/
def considerTarget (dynamicExclusions : Exclusions) (fileSize : ℤ) (target : PlacementTarget) :
    Except TargetExclusionReason Unit :=
  match excludedBy dynamicExclusions target.policyId with
  | some reason => .error reason
  | none => target.eligibleFor fileSize

def eligibleTargets (dynamicExclusions : Exclusions) (fileSize : ℤ) (targets : List PlacementTarget) :
    List PlacementTarget :=
  targets.filter fun target => (considerTarget dynamicExclusions fileSize target).isOk

def excludedTargets (dynamicExclusions : Exclusions) (fileSize : ℤ) (targets : List PlacementTarget) : Exclusions :=
  targets.filterMap fun target =>
    match considerTarget dynamicExclusions fileSize target with
    | .ok () => none
    | .error reason => some (target.policyId, reason)

/-- The target under the cursor; `selected` if there is none. -/
def atCursor : List PlacementTarget → ℕ → PlacementTarget → PlacementTarget
  | [], _, selected => selected
  | target :: targets, cursor, selected =>
    if cursor < target.weight then target else atCursor targets (cursor - target.weight) selected

section

/- `rng n` is the number that `random_range(0..n)` gives. -/
variable (rng : ℕ → ℕ) (randomDraw : Option ℕ)

def selectTarget (mode : PlacementSelectionMode) (eligible : List PlacementTarget) : Option PlacementTarget :=
  match mode with
  | .firstAvailable => eligible.argmin PlacementTarget.stableOrder
  | .weightedRandom =>
    let totalWeight := (eligible.map PlacementTarget.weight).sum
    let draw := randomDraw.getD (rng totalWeight)
    eligible.getLast?.map (atCursor eligible (draw % totalWeight))

def resolveRules (profile : CompiledPlacementProfile) (context : StoragePlacementContext) (dynamicExclusions : Exclusions) :
    List PlacementRule → List PlacementRuleEvaluation → Exclusions → PlacementResolution
  | [], evaluatedRules, excluded =>
    .rejected (if excluded = [] then .noMatchingRule else .noEligibleTarget) evaluatedRules excluded
  | rule :: rules, evaluatedRules, excluded =>
    if !rule.isEnabled then resolveRules profile context dynamicExclusions rules evaluatedRules excluded
    else if !matchesMatcher rule.matcher context then
      resolveRules profile context dynamicExclusions rules
        (evaluatedRules ++ [⟨rule.id, false, some "matcher_mismatch"⟩]) excluded
    else
      let evaluatedRules := evaluatedRules ++ [⟨rule.id, true, none⟩]
      let excluded := excluded ++ excludedTargets dynamicExclusions context.fileSize rule.targets
      let eligible := eligibleTargets dynamicExclusions context.fileSize rule.targets
      if eligible = [] then
        if rule.unavailableBehavior = .reject then .rejected .noEligibleTarget evaluatedRules excluded
        else resolveRules profile context dynamicExclusions rules evaluatedRules excluded
      else
        match selectTarget rng randomDraw rule.selectionMode eligible with
        | none => .rejected .noEligibleTarget [] []
        | some selected =>
          .selected ⟨profile.id, profile.revision, some rule.id, selected.policyId, rule.selectionMode, false,
            profile.executionPreference, excluded, evaluatedRules⟩

def resolvePlacementInternal (profile : CompiledPlacementProfile) (context : StoragePlacementContext)
    (folderOverride : Option FolderPlacementOverride) (dynamicExclusions : Exclusions) : PlacementResolution :=
  if !profile.isEnabled then .rejected .profileDisabled [] []
  else if profile.admission.maxFileSize > 0 ∧ context.fileSize > profile.admission.maxFileSize then
    .rejected .admissionFileTooLarge [] []
  else
    match applyAdmission profile.admission context with
    | .error rejection => .rejected rejection [] []
    | .ok () =>
      match folderOverride with
      | some folder =>
        if !folder.isAvailable then .rejected .folderPolicyUnavailable [] []
        else if folder.policyMaxFileSize > 0 ∧ context.fileSize > folder.policyMaxFileSize then
          .rejected .folderPolicyFileTooLarge [] []
        else
          match excludedBy dynamicExclusions folder.policyId with
          | some reason => .rejected .noEligibleTarget [] [(folder.policyId, reason)]
          | none =>
            .selected ⟨profile.id, profile.revision, none, folder.policyId, .firstAvailable, true,
              profile.executionPreference, [], []⟩
      | none => resolveRules rng randomDraw profile context dynamicExclusions profile.rules [] []

def resolvePlacementWithExclusions (profile : CompiledPlacementProfile) (context : StoragePlacementContext)
    (folderOverride : Option FolderPlacementOverride) (dynamicExclusions : Exclusions) :
    Except PlacementRejection StorageRoutingDecision :=
  match resolvePlacementInternal rng randomDraw profile context folderOverride dynamicExclusions with
  | .selected decision => .ok decision
  | .rejected rejection _ _ => .error rejection

def resolvePlacementWithRandom (profile : CompiledPlacementProfile) (context : StoragePlacementContext)
    (folderOverride : Option FolderPlacementOverride) : Except PlacementRejection StorageRoutingDecision :=
  resolvePlacementWithExclusions rng randomDraw profile context folderOverride []

def resolvePlacement (profile : CompiledPlacementProfile) (context : StoragePlacementContext)
    (folderOverride : Option FolderPlacementOverride) : Except PlacementRejection StorageRoutingDecision :=
  resolvePlacementWithRandom rng none profile context folderOverride

end

/-! ### The ceiling of a stream -/

def i64Max : ℤ := 2 ^ 63 - 1

/-- The limit as an end, unless it is none. -/
def limitEnd (limit : ℤ) : List ℤ := if limit > 0 then [limit] else []

/-- A limit that is itself excluded. -/
def boundEnd (bound : ℤ) : List ℤ := if bound > 0 then [bound - 1] else []

def ruleEndpoints (rule : PlacementRule) : List ℤ :=
  boundEnd rule.matcher.minFileSize ++ boundEnd rule.matcher.maxFileSize ++
    rule.targets.flatMap fun target => limitEnd target.policyMaxFileSize

def sizeEndpoints (profile : CompiledPlacementProfile) (folderOverride : Option FolderPlacementOverride) : List ℤ :=
  [i64Max, 0] ++ limitEnd profile.admission.maxFileSize ++
    (folderOverride.toList.flatMap fun folder => limitEnd folder.policyMaxFileSize) ++ profile.rules.flatMap ruleEndpoints

/-- The first size that is placed; `rejection` is that of the size before. The draw is fixed. -/
def firstPlaced (profile : CompiledPlacementProfile) (context : StoragePlacementContext)
    (folderOverride : Option FolderPlacementOverride) : List ℤ → PlacementRejection → Except PlacementRejection ℤ
  | [], rejection => .error rejection
  | size :: sizes, _ =>
    match resolvePlacementWithRandom id (some 0) profile { context with fileSize := size } folderOverride with
    | .ok _ => .ok size
    | .error rejection => firstPlaced profile context folderOverride sizes rejection

def maximumAdmittedFileSize (profile : CompiledPlacementProfile) (context : StoragePlacementContext)
    (folderOverride : Option FolderPlacementOverride) : Except PlacementRejection ℤ :=
  firstPlaced profile context folderOverride (Endpoints.descending (sizeEndpoints profile folderOverride)) .noMatchingRule

/-! ### Which rule decides -/

/-- The rule that is left when those without an eligible target are passed over; a rule may forbid that. -/
def decidingRule (context : StoragePlacementContext) (dynamicExclusions : Exclusions) :
    List PlacementRule → Option PlacementRule
  | [] => none
  | rule :: rules =>
    if !rule.isEnabled || !matchesMatcher rule.matcher context then decidingRule context dynamicExclusions rules
    else if eligibleTargets dynamicExclusions context.fileSize rule.targets = [] then
      if rule.unavailableBehavior = .reject then none else decidingRule context dynamicExclusions rules
    else some rule

/-- What has to hold for a placement, whatever is drawn. -/
structure Placeable (profile : CompiledPlacementProfile) (context : StoragePlacementContext)
    (folderOverride : Option FolderPlacementOverride) (dynamicExclusions : Exclusions) : Prop where
  enabled : profile.isEnabled = true
  size : ¬ (profile.admission.maxFileSize > 0 ∧ context.fileSize > profile.admission.maxFileSize)
  admission : applyAdmission profile.admission context = .ok ()
  folder : ∀ folder ∈ folderOverride, folder.isAvailable = true ∧
    ¬ (folder.policyMaxFileSize > 0 ∧ context.fileSize > folder.policyMaxFileSize) ∧
    excludedBy dynamicExclusions folder.policyId = none
  rule : folderOverride = none → decidingRule context dynamicExclusions profile.rules ≠ none

/-- The policies among which is drawn. -/
def Candidate (profile : CompiledPlacementProfile) (context : StoragePlacementContext)
    (folderOverride : Option FolderPlacementOverride) (dynamicExclusions : Exclusions) (policyId : ℕ) : Prop :=
  match folderOverride with
  | some folder => policyId = folder.policyId
  | none => ∃ rule, decidingRule context dynamicExclusions profile.rules = some rule ∧
      ∃ target ∈ eligibleTargets dynamicExclusions context.fileSize rule.targets, target.policyId = policyId

section

variable {rng : ℕ → ℕ} {randomDraw : Option ℕ} {mode : PlacementSelectionMode} {eligible : List PlacementTarget}
variable {target : PlacementTarget} {rule : PlacementRule} {profile : CompiledPlacementProfile}
variable {context : StoragePlacementContext} {folderOverride : Option FolderPlacementOverride}
variable {dynamicExclusions more : Exclusions} {decision : StorageRoutingDecision} {policyId : ℕ} {size : ℤ}

theorem atCursor_mem {cursor : ℕ} (h : target ∈ eligible) :
    ∀ targets : List PlacementTarget, (∀ t ∈ targets, t ∈ eligible) → atCursor targets cursor target ∈ eligible := by
  intro targets
  induction targets generalizing cursor with
  | nil => exact fun _ => h
  | cons first targets ih =>
    intro hall
    unfold atCursor
    split_ifs
    · exact hall first mem_cons_self
    · exact ih fun t ht => hall t (mem_cons_of_mem _ ht)

theorem selectTarget_mem (h : selectTarget rng randomDraw mode eligible = some target) : target ∈ eligible := by
  cases mode with
  | firstAvailable => exact argmin_mem h
  | weightedRandom =>
    obtain ⟨last, hlast, rfl⟩ := map_eq_some_iff.mp h
    exact atCursor_mem (mem_of_getLast? hlast) eligible fun t ht => ht

theorem selectTarget_ne_none (h : eligible ≠ []) : selectTarget rng randomDraw mode eligible ≠ none := by
  cases mode with
  | firstAvailable => exact fun hnone => h (argmin_eq_none.mp hnone)
  | weightedRandom => exact fun hnone => h (getLast?_eq_none_iff.mp (map_eq_none_iff.mp hnone))

theorem mem_eligibleTargets {targets : List PlacementTarget} : target ∈ eligibleTargets dynamicExclusions size targets ↔
      target ∈ targets ∧ considerTarget dynamicExclusions size target = .ok () := by
  unfold eligibleTargets
  rw [mem_filter]
  refine and_congr_right fun _ => ?_
  cases considerTarget dynamicExclusions size target with
  | ok => exact ⟨fun _ => rfl, fun _ => rfl⟩
  | error reason => exact ⟨(fun h => nomatch h), (fun h => nomatch h)⟩

theorem considerTarget_ok : considerTarget dynamicExclusions size target = .ok () ↔
      excludedBy dynamicExclusions target.policyId = none ∧ target.eligibleFor size = .ok () := by
  unfold considerTarget
  cases excludedBy dynamicExclusions target.policyId with
  | none => exact ⟨fun h => ⟨rfl, h⟩, fun h => h.2⟩
  | some reason => exact ⟨(fun h => nomatch h), (fun h => nomatch h.1)⟩

theorem eligibleFor_limit (h : target.eligibleFor size = .ok ()) :
    ¬ (target.policyMaxFileSize > 0 ∧ size > target.policyMaxFileSize) := by
  intro hlimit
  unfold PlacementTarget.eligibleFor at h
  split_ifs at h
  split at h
  · cases h
  · cases h

theorem resolveRules_spec (rng : ℕ → ℕ) (randomDraw : Option ℕ) (profile : CompiledPlacementProfile)
    (context : StoragePlacementContext) (dynamicExclusions : Exclusions) (rules : List PlacementRule) (evaluated : List PlacementRuleEvaluation) (excluded : Exclusions) :
    (∃ decision rule target, resolveRules rng randomDraw profile context dynamicExclusions rules evaluated excluded
          = .selected decision ∧ decidingRule context dynamicExclusions rules = some rule ∧
        target ∈ eligibleTargets dynamicExclusions context.fileSize rule.targets ∧ decision.policyId = target.policyId) ∨
      (decidingRule context dynamicExclusions rules = none ∧ ∃ rejection evaluated' excluded',
        resolveRules rng randomDraw profile context dynamicExclusions rules evaluated excluded
          = .rejected rejection evaluated' excluded') := by
  induction rules generalizing evaluated excluded with
  | nil => exact .inr ⟨rfl, _, _, _, rfl⟩
  | cons rule rules ih =>
    unfold resolveRules decidingRule
    by_cases henabled : rule.isEnabled = true
    swap
    · simp only [henabled, Bool.not_false, Bool.true_or, if_true]
      exact ih evaluated excluded
    by_cases hmatches : matchesMatcher rule.matcher context = true
    swap
    · simp only [henabled, hmatches, Bool.not_true, Bool.not_false, Bool.or_true, Bool.false_eq_true, if_true, if_false]
      exact ih _ excluded
    simp only [henabled, hmatches, Bool.not_true, Bool.or_false, Bool.false_eq_true, if_false]
    by_cases hempty : eligibleTargets dynamicExclusions context.fileSize rule.targets = []
    · rw [if_pos hempty, if_pos hempty]
      by_cases hreject : rule.unavailableBehavior = .reject
      · rw [if_pos hreject, if_pos hreject]
        exact .inr ⟨rfl, _, _, _, rfl⟩
      · rw [if_neg hreject, if_neg hreject]
        exact ih _ _
    · rw [if_neg hempty, if_neg hempty]
      cases hselect : selectTarget rng randomDraw rule.selectionMode
          (eligibleTargets dynamicExclusions context.fileSize rule.targets) with
      | none => exact absurd hselect (selectTarget_ne_none hempty)
      | some selected => exact .inl ⟨_, rule, selected, rfl, rfl, selectTarget_mem hselect, rfl⟩

theorem resolve_ok (h : resolvePlacementWithExclusions rng randomDraw profile context folderOverride dynamicExclusions
      = .ok decision) :
    Placeable profile context folderOverride dynamicExclusions ∧
      Candidate profile context folderOverride dynamicExclusions decision.policyId := by
  unfold resolvePlacementWithExclusions resolvePlacementInternal at h
  by_cases henabled : profile.isEnabled = true
  swap
  · simp [henabled] at h
  by_cases hsize : profile.admission.maxFileSize > 0 ∧ context.fileSize > profile.admission.maxFileSize
  · simp [henabled, hsize] at h
  cases hadmission : applyAdmission profile.admission context with
  | error rejection => simp [henabled, hsize, hadmission] at h
  | ok _ =>
    simp only [henabled, hsize, hadmission, Bool.not_true, Bool.false_eq_true, if_false] at h
    cases folderOverride with
    | some folder =>
      by_cases havailable : folder.isAvailable = true
      swap
      · simp [havailable] at h
      by_cases hlimit : folder.policyMaxFileSize > 0 ∧ context.fileSize > folder.policyMaxFileSize
      · simp [havailable, hlimit] at h
      cases hexcluded : excludedBy dynamicExclusions folder.policyId with
      | some reason => simp [havailable, hlimit, hexcluded] at h
      | none =>
        simp only [havailable, hlimit, hexcluded, Bool.not_true, Bool.false_eq_true, if_false] at h
        cases h
        refine ⟨⟨henabled, hsize, hadmission, fun folder' hmem => ?_, (fun hnone => nomatch hnone)⟩, rfl⟩
        cases hmem
        exact ⟨havailable, hlimit, hexcluded⟩
    | none =>
      rcases resolveRules_spec rng randomDraw profile context dynamicExclusions profile.rules [] [] with
        ⟨selected, rule, target, hselected, hrule, htarget, hpolicy⟩ | ⟨-, rejection, _, _, hrejected⟩
      · rw [hselected] at h
        cases h
        refine ⟨⟨henabled, hsize, hadmission, (fun _ hmem => nomatch hmem), fun _ hnone => ?_⟩, ?_⟩
        · rw [hrule] at hnone
          cases hnone
        · exact ⟨rule, hrule, target, htarget, hpolicy.symm⟩
      · rw [hrejected] at h
        cases h

theorem resolve_of_placeable (h : Placeable profile context folderOverride dynamicExclusions) :
    ∃ decision, resolvePlacementWithExclusions rng randomDraw profile context folderOverride dynamicExclusions
      = .ok decision := by
  unfold resolvePlacementWithExclusions resolvePlacementInternal
  simp only [h.enabled, h.size, h.admission, Bool.not_true, Bool.false_eq_true, if_false]
  cases folderOverride with
  | some folder =>
    obtain ⟨havailable, hlimit, hexcluded⟩ := h.folder folder rfl
    simp only [havailable, hlimit, hexcluded, Bool.not_true, Bool.false_eq_true, if_false]
    exact ⟨_, rfl⟩
  | none =>
    rcases resolveRules_spec rng randomDraw profile context dynamicExclusions profile.rules [] [] with
      ⟨selected, _, _, hselected, _⟩ | ⟨hnone, _⟩
    · exact ⟨selected, by dsimp only; rw [hselected]⟩
    · exact absurd hnone (h.rule rfl)

/-- **Whether something is selected does not depend on what is drawn.** -/
theorem resolve_succeeds :
    (∃ decision, resolvePlacementWithExclusions rng randomDraw profile context folderOverride dynamicExclusions
      = .ok decision) ↔ Placeable profile context folderOverride dynamicExclusions :=
  ⟨fun ⟨_, h⟩ => (resolve_ok h).1, resolve_of_placeable⟩

/-- **What is excluded is not selected.** -/
theorem Candidate.not_excluded (hplaceable : Placeable profile context folderOverride dynamicExclusions)
    (h : Candidate profile context folderOverride dynamicExclusions policyId) :
    excludedBy dynamicExclusions policyId = none := by
  cases folderOverride with
  | some folder =>
    obtain rfl : policyId = folder.policyId := h
    exact (hplaceable.folder folder rfl).2.2
  | none =>
    obtain ⟨rule, -, target, htarget, rfl⟩ := h
    exact ((considerTarget_ok).mp ((mem_eligibleTargets).mp htarget).2).1

/-! ### More exclusions -/

/-- What the first excludes, the second excludes as well. -/
def Excludes (dynamicExclusions more : Exclusions) : Prop :=
  ∀ policyId, excludedBy more policyId = none → excludedBy dynamicExclusions policyId = none

theorem Excludes.mem_eligible (h : Excludes dynamicExclusions more) {targets : List PlacementTarget}
    (htarget : target ∈ eligibleTargets more size targets) : target ∈ eligibleTargets dynamicExclusions size targets := by
  obtain ⟨hmem, hconsider⟩ := (mem_eligibleTargets).mp htarget
  obtain ⟨hnone, heligible⟩ := (considerTarget_ok).mp hconsider
  exact (mem_eligibleTargets).mpr ⟨hmem, (considerTarget_ok).mpr ⟨h _ hnone, heligible⟩⟩

theorem Excludes.deciding (h : Excludes dynamicExclusions more) (rules : List PlacementRule)
    (hmore : decidingRule context more rules ≠ none) : decidingRule context dynamicExclusions rules ≠ none := by
  induction rules with
  | nil => exact hmore
  | cons rule rules ih =>
    unfold decidingRule at hmore ⊢
    by_cases hskip : (!rule.isEnabled || !matchesMatcher rule.matcher context) = true
    · rw [if_pos hskip] at hmore ⊢
      exact ih hmore
    rw [if_neg hskip] at hmore ⊢
    by_cases hempty : eligibleTargets dynamicExclusions context.fileSize rule.targets = []
    · have hemptyMore : eligibleTargets more context.fileSize rule.targets = [] := by
        apply eq_nil_iff_forall_not_mem.mpr
        intro target htarget
        have hmem := h.mem_eligible htarget
        rw [hempty] at hmem
        cases hmem
      rw [if_pos hemptyMore] at hmore
      rw [if_pos hempty]
      by_cases hreject : rule.unavailableBehavior = .reject
      · rw [if_pos hreject] at hmore
        exact absurd rfl hmore
      · rw [if_neg hreject] at hmore ⊢
        exact ih hmore
    · rw [if_neg hempty]
      exact some_ne_none rule

/-- **With more exclusions nothing new is placed.** -/
theorem Excludes.placeable (h : Excludes dynamicExclusions more)
    (hplaceable : Placeable profile context folderOverride more) :
    Placeable profile context folderOverride dynamicExclusions where
  enabled := hplaceable.enabled
  size := hplaceable.size
  admission := hplaceable.admission
  folder folder hmem :=
    have hfolder := hplaceable.folder folder hmem
    ⟨hfolder.1, hfolder.2.1, h _ hfolder.2.2⟩
  rule hnone := h.deciding profile.rules (hplaceable.rule hnone)

/-! ### Sizes within one interval -/

variable {endpoints : List ℤ} {s t limit : ℤ}

theorem limit_agree (hsub : limitEnd limit ⊆ endpoints) (h : Endpoints.Agree endpoints s t) :
    limit > 0 ∧ s > limit ↔ limit > 0 ∧ t > limit := by
  refine and_congr_right fun hpos => ?_
  have hmem : limit ∈ endpoints := by
    apply hsub
    unfold limitEnd
    rw [if_pos hpos]
    exact mem_singleton_self limit
  have := h limit hmem
  omega

theorem bound_agree (hsub : boundEnd limit ⊆ endpoints) (h : Endpoints.Agree endpoints s t) (hs : 0 ≤ s) (ht : 0 ≤ t) :
    s < limit ↔ t < limit := by
  by_cases hpos : limit > 0
  · have hmem : limit - 1 ∈ endpoints := by
      apply hsub
      unfold boundEnd
      rw [if_pos hpos]
      exact mem_singleton_self (limit - 1)
    have := h (limit - 1) hmem
    omega
  · omega

theorem eligible_agree {targets : List PlacementTarget}
    (hsub : ∀ target ∈ targets, limitEnd target.policyMaxFileSize ⊆ endpoints) (h : Endpoints.Agree endpoints s t) :
    eligibleTargets dynamicExclusions s targets = eligibleTargets dynamicExclusions t targets := by
  apply filter_congr
  intro target hmem
  have hlimit := limit_agree (hsub target hmem) h
  unfold considerTarget PlacementTarget.eligibleFor
  simp only [hlimit]

theorem matches_agree {matcher : PlacementMatcher} (hmin : boundEnd matcher.minFileSize ⊆ endpoints)
    (hmax : boundEnd matcher.maxFileSize ⊆ endpoints) (h : Endpoints.Agree endpoints s t) (hs : 0 ≤ s) (ht : 0 ≤ t) :
    matchesMatcher matcher { context with fileSize := s } = matchesMatcher matcher { context with fileSize := t } := by
  have hleast := bound_agree hmin h hs ht
  have hmost : s ≥ matcher.maxFileSize ↔ t ≥ matcher.maxFileSize := by
    have := bound_agree hmax h hs ht
    omega
  have hext : hasExtension { context with fileSize := s } = hasExtension { context with fileSize := t } := rfl
  unfold matchesMatcher
  simp only [hleast, hmost, hext]

theorem decidingRule_agree (h : Endpoints.Agree endpoints s t) (hs : 0 ≤ s) (ht : 0 ≤ t) (rules : List PlacementRule)
    (hsub : ∀ rule ∈ rules, ruleEndpoints rule ⊆ endpoints) :
    decidingRule { context with fileSize := s } dynamicExclusions rules
      = decidingRule { context with fileSize := t } dynamicExclusions rules := by
  induction rules with
  | nil => rfl
  | cons rule rules ih =>
    have hrule := hsub rule mem_cons_self
    have hmin : boundEnd rule.matcher.minFileSize ⊆ endpoints := fun x hx =>
      hrule (mem_append_left _ (mem_append_left _ hx))
    have hmax : boundEnd rule.matcher.maxFileSize ⊆ endpoints := fun x hx =>
      hrule (mem_append_left _ (mem_append_right _ hx))
    have htargets : ∀ target ∈ rule.targets, limitEnd target.policyMaxFileSize ⊆ endpoints := fun target hmem x hx =>
      hrule (mem_append_right _ (mem_flatMap.mpr ⟨target, hmem, hx⟩))
    unfold decidingRule
    rw [matches_agree hmin hmax h hs ht, ih fun r hr => hsub r (mem_cons_of_mem _ hr)]
    have heligible : eligibleTargets dynamicExclusions s rule.targets = eligibleTargets dynamicExclusions t rule.targets :=
      eligible_agree htargets h
    simp only [heligible]

theorem placeable_agree (h : Endpoints.Agree (sizeEndpoints profile folderOverride) s t) (hs : 0 ≤ s) (ht : 0 ≤ t)
    (hplaceable : Placeable profile { context with fileSize := s } folderOverride dynamicExclusions) :
    Placeable profile { context with fileSize := t } folderOverride dynamicExclusions where
  enabled := hplaceable.enabled
  size := by
    have hsub : limitEnd profile.admission.maxFileSize ⊆ sizeEndpoints profile folderOverride := fun x hx =>
      mem_append_left _ (mem_append_left _ (mem_append_right _ hx))
    rw [← limit_agree hsub h]
    exact hplaceable.size
  admission := hplaceable.admission
  folder folder hmem := by
    obtain ⟨havailable, hlimit, hexcluded⟩ := hplaceable.folder folder hmem
    refine ⟨havailable, ?_, hexcluded⟩
    have hsub : limitEnd folder.policyMaxFileSize ⊆ sizeEndpoints profile folderOverride := fun x hx =>
      mem_append_left _ (mem_append_right _ (mem_flatMap.mpr ⟨folder, mem_toList.mpr hmem, hx⟩))
    rw [← limit_agree hsub h]
    exact hlimit
  rule hnone := by
    rw [← decidingRule_agree h hs ht profile.rules fun rule hrule x hx => ?_]
    · exact hplaceable.rule hnone
    · exact mem_append_right _ (mem_flatMap.mpr ⟨rule, hrule, hx⟩)

/-- The numbers of a profile and of a folder are `i64`. -/
structure FitsI64 (profile : CompiledPlacementProfile) (folderOverride : Option FolderPlacementOverride) : Prop where
  admission : profile.admission.maxFileSize ≤ i64Max
  folder : ∀ folder ∈ folderOverride, folder.policyMaxFileSize ≤ i64Max
  matcher : ∀ rule ∈ profile.rules, rule.matcher.minFileSize ≤ i64Max ∧ rule.matcher.maxFileSize ≤ i64Max
  target : ∀ rule ∈ profile.rules, ∀ target ∈ rule.targets, target.policyMaxFileSize ≤ i64Max

theorem limitEnd_range (hlimit : limit ≤ i64Max) : ∀ x ∈ limitEnd limit, 0 ≤ x ∧ x ≤ i64Max := by
  unfold limitEnd
  split_ifs with hpos
  · intro x hx
    obtain rfl := mem_singleton.mp hx
    exact ⟨Int.le_of_lt hpos, hlimit⟩
  · exact fun x hx => nomatch hx

theorem boundEnd_range (hlimit : limit ≤ i64Max) : ∀ x ∈ boundEnd limit, 0 ≤ x ∧ x ≤ i64Max := by
  unfold boundEnd
  split_ifs with hpos
  · intro x hx
    obtain rfl := mem_singleton.mp hx
    omega
  · exact fun x hx => nomatch hx

theorem sizeEndpoints_range (h : FitsI64 profile folderOverride) :
    ∀ x ∈ sizeEndpoints profile folderOverride, 0 ≤ x ∧ x ≤ i64Max := by
  intro x hx
  rcases mem_append.mp hx with hx | hrules
  · rcases mem_append.mp hx with hx | hfolder
    · rcases mem_append.mp hx with hends | hadmission
      · have htop : 0 ≤ i64Max := by decide
        rcases mem_cons.mp hends with rfl | hzero
        · exact ⟨htop, le_refl _⟩
        · obtain rfl := mem_singleton.mp hzero
          exact ⟨le_refl _, htop⟩
      · exact limitEnd_range h.admission x hadmission
    · obtain ⟨folder, hmem, hx⟩ := mem_flatMap.mp hfolder
      exact limitEnd_range (h.folder folder (mem_toList.mp hmem)) x hx
  · obtain ⟨rule, hrule, hx⟩ := mem_flatMap.mp hrules
    obtain ⟨hmin, hmax⟩ := h.matcher rule hrule
    rcases mem_append.mp hx with hx | htargets
    · rcases mem_append.mp hx with hx | hx
      · exact boundEnd_range hmin x hx
      · exact boundEnd_range hmax x hx
    · obtain ⟨target, htarget, hx⟩ := mem_flatMap.mp htargets
      exact limitEnd_range (h.target rule hrule target htarget) x hx

/-- The resolver places the file if it has this size. -/
def placed (profile : CompiledPlacementProfile) (context : StoragePlacementContext)
    (folderOverride : Option FolderPlacementOverride) (size : ℤ) : Bool :=
  (resolvePlacementWithRandom id (some 0) profile { context with fileSize := size } folderOverride).isOk

theorem placed_iff : placed profile context folderOverride size = true ↔
      Placeable profile { context with fileSize := size } folderOverride [] := by
  have hsucceeds : (∃ decision, resolvePlacementWithExclusions id (some 0) profile { context with fileSize := size }
      folderOverride [] = .ok decision) ↔ Placeable profile { context with fileSize := size } folderOverride [] :=
    resolve_succeeds
  rw [← hsucceeds]
  unfold placed resolvePlacementWithRandom
  cases resolvePlacementWithExclusions id (some 0) profile { context with fileSize := size } folderOverride [] with
  | ok decision => exact ⟨fun _ => ⟨decision, rfl⟩, fun _ => rfl⟩
  | error rejection => exact ⟨(fun h => nomatch h), (fun ⟨_, h⟩ => nomatch h)⟩

theorem firstPlaced_ok (sizes : List ℤ) (rejection : PlacementRejection) :
    firstPlaced profile context folderOverride sizes rejection = .ok size ↔
      sizes.find? (placed profile context folderOverride) = some size := by
  induction sizes generalizing rejection with
  | nil => exact ⟨(fun h => nomatch h), (fun h => nomatch h)⟩
  | cons first sizes ih =>
    unfold firstPlaced
    cases hfirst : resolvePlacementWithRandom id (some 0) profile { context with fileSize := first } folderOverride with
    | ok decision =>
      have hplaced : placed profile context folderOverride first = true := by
        unfold placed
        rw [hfirst]
        rfl
      rw [find?_cons_of_pos hplaced]
      simp
    | error rejection' =>
      have hplaced : ¬ placed profile context folderOverride first = true := by
        unfold placed
        rw [hfirst]
        exact fun h => nomatch h
      rw [find?_cons_of_neg hplaced]
      exact ih rejection'

theorem placed_sizes (rng : ℤ → ℕ → ℕ) :
    {s : ℤ | (0 ≤ s ∧ s ≤ i64Max) ∧ placed profile context folderOverride s = true} = {s | (0 ≤ s ∧ s ≤ i64Max) ∧
        ∃ decision, resolvePlacement (rng s) profile { context with fileSize := s } folderOverride = .ok decision} := by
  ext s
  show (_ ∧ _) ↔ (_ ∧ _)
  unfold resolvePlacement resolvePlacementWithRandom
  rw [placed_iff, resolve_succeeds]

/-- **The ceiling is the greatest size that is placed.** `rng` gives the number that is drawn for a file of each size. -/
theorem maximumAdmittedFileSize_exact (hfits : FitsI64 profile folderOverride) (rng : ℤ → ℕ → ℕ) :
    (∀ m, maximumAdmittedFileSize profile context folderOverride = .ok m ↔ IsGreatest {s | (0 ≤ s ∧ s ≤ i64Max) ∧
        ∃ decision, resolvePlacement (rng s) profile { context with fileSize := s } folderOverride = .ok decision} m) ∧
      ((∃ rejection, maximumAdmittedFileSize profile context folderOverride = .error rejection) ↔
        ¬ ∃ s, (0 ≤ s ∧ s ≤ i64Max) ∧
          ∃ decision, resolvePlacement (rng s) profile { context with fileSize := s } folderOverride = .ok decision) := by
  have htop : i64Max ∈ sizeEndpoints profile folderOverride :=
    mem_append_left _ (mem_append_left _ (mem_append_left _ mem_cons_self))
  have hagree : ∀ s t : ℤ, 0 ≤ s → s ≤ t → Endpoints.Agree (sizeEndpoints profile folderOverride) s t →
      placed profile context folderOverride s = placed profile context folderOverride t := by
    intro s t hs hst h
    have ht : 0 ≤ t := Int.le_trans hs hst
    apply Bool.eq_iff_iff.mpr
    rw [placed_iff, placed_iff]
    exact ⟨placeable_agree h hs ht, placeable_agree h.symm ht hs⟩
  have hgreatest : ∀ m, maximumAdmittedFileSize profile context folderOverride = .ok m ↔
      IsGreatest {s | (0 ≤ s ∧ s ≤ i64Max) ∧
        ∃ decision, resolvePlacement (rng s) profile { context with fileSize := s } folderOverride = .ok decision} m := by
    intro m
    rw [← placed_sizes rng]
    exact (firstPlaced_ok _ _).trans (Endpoints.find_descending htop (sizeEndpoints_range hfits) hagree)
  refine ⟨hgreatest, ?_, fun hnone => ?_⟩
  · rintro ⟨rejection, herror⟩ ⟨s, hrange, hplaced⟩
    have hmem : s ∈ {s : ℤ | (0 ≤ s ∧ s ≤ i64Max) ∧ placed profile context folderOverride s = true} := by
      rw [placed_sizes rng]
      exact ⟨hrange, hplaced⟩
    obtain ⟨e, he, hse, hends⟩ := Endpoints.exists_agree htop hrange.2
    have hend : placed profile context folderOverride e = true := by
      rw [← hagree s e hrange.1 hse hends]
      exact hmem.2
    cases hfind : (Endpoints.descending (sizeEndpoints profile folderOverride)).find?
        (placed profile context folderOverride) with
    | none => exact absurd hend (find?_eq_none.mp hfind e (Endpoints.mem_descending.mpr he))
    | some m =>
      have hok : maximumAdmittedFileSize profile context folderOverride = .ok m := (firstPlaced_ok _ _).mpr hfind
      rw [hok] at herror
      cases herror
  · cases hmax : maximumAdmittedFileSize profile context folderOverride with
    | error rejection => exact ⟨rejection, rfl⟩
    | ok m => exact absurd ⟨m, ((hgreatest m).mp hmax).1⟩ hnone

end

/-- A rule for files below eight bytes, and one for those from sixteen bytes that goes up to forty. -/
def sampleRules : List PlacementRule :=
  [⟨11, "small", "", 1, true, { maxFileSize := 8 }, .firstAvailable, .nextRule, [⟨1, 101, 100, 1, true, 7, none⟩]⟩,
    ⟨12, "large", "", 2, true, { minFileSize := 16, maxFileSize := 33 }, .weightedRandom, .nextRule,
      [⟨2, 101, 100, 1, true, 40, none⟩, ⟨3, 102, 50, 2, true, 20, none⟩]⟩]

theorem maximumAdmittedFileSize_exact_gap :
    maximumAdmittedFileSize ⟨7, 3, true, {}, .automatic, sampleRules⟩ ⟨7, "x.bin", 0, "bin", none, .other⟩ none = .ok 32 ∧
      IsGreatest {s | (0 ≤ s ∧ s ≤ i64Max) ∧ ∃ decision, resolvePlacement (fun n => n - 1)
        ⟨7, 3, true, {}, .automatic, sampleRules⟩ ⟨7, "x.bin", s, "bin", none, .other⟩ none = .ok decision} 32 :=
  have hmax : maximumAdmittedFileSize ⟨7, 3, true, {}, .automatic, sampleRules⟩ ⟨7, "x.bin", 0, "bin", none, .other⟩ none
      = .ok 32 := by decide
  have hfits : FitsI64 ⟨7, 3, true, {}, .automatic, sampleRules⟩ none :=
    ⟨by decide, (fun _ h => nomatch h), by decide, by decide⟩
  ⟨hmax, ((maximumAdmittedFileSize_exact hfits fun _ n => n - 1).1 32).mp hmax⟩

end AsterDrive.Placement
