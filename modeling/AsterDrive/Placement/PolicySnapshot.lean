import AsterDrive.Errors
import AsterDrive.Lib.Lts
import AsterDrive.Lib.SortByKey
import AsterDrive.Lib.Table
import AsterDrive.Placement.Profile

/-!
# Placement.PolicySnapshot — the routing facts that a process keeps in memory

`PolicySnapshotData::load` reads seven tables one after the other and compiles them; `reload` publishes the result if no
one has published since it began. An update of a user and a deletion publish their own entry once they have committed.
-/

namespace AsterDrive.Placement

open AsterError

/-! ### Tables -/

structure StoragePolicy where
  id : ℕ
  name : String
  connectorId : String
  storageConfig : String
  maxFileSize : ℤ
  allowedTypes : String
  isDefault : Bool
  chunkSize : ℤ

structure StoragePolicyGroup where
  id : ℕ
  name : String
  description : String
  isEnabled : Bool
  isDefault : Bool
  admissionConfig : String
  uploadExecutionPreference : String
  routingRevision : ℤ

structure StoragePolicyGroupRule where
  id : ℕ
  groupId : ℕ
  name : String
  description : String
  priority : ℤ
  isEnabled : Bool
  matcher : String
  selectionMode : String
  unavailableBehavior : String

structure StoragePolicyGroupRuleTarget where
  id : ℕ
  ruleId : ℕ
  policyId : ℕ
  weight : ℤ
  acceptingNewWrites : Bool
  stableOrder : ℤ

structure ManagedFollower where
  id : ℕ
  isEnabled : Bool

structure User where
  id : ℕ
  isAdmin : Bool
  policyGroupId : Option ℕ
  deriving DecidableEq

structure Team where
  id : ℕ
  policyGroupId : Option ℕ

/-- The tables that placement is compiled from. -/
structure Routing where
  policies : Table StoragePolicy.id
  policyGroups : Table StoragePolicyGroup.id
  placementRules : Table StoragePolicyGroupRule.id
  placementTargets : Table StoragePolicyGroupRuleTarget.id
  managedFollowers : Table ManagedFollower.id

structure Tables extends Routing where
  users : Table User.id
  teams : Table Team.id

/-! ### Compilation -/

/-- What is asked of the connectors, and the JSON of the payloads. -/
structure Connectors where
  resolveRemotePolicyBinding : StoragePolicy → Except AsterError (Option (Option ℕ))
  resolvePolicyUploadTransport : StoragePolicy → Except AsterError Unit
  matcherFromStr : String → Option (PlacementPayloadEnvelope PlacementMatcher)
  admissionFromStr : String → Option (PlacementPayloadEnvelope StorageAdmissionConstraints)
  normalizeExtensionFilter : String → Except String String

structure PolicySnapshotData where
  generation : ℕ
  policiesById : ℕ → Option StoragePolicy
  policyGroupsById : ℕ → Option StoragePolicyGroup
  placementProfilesById : ℕ → Option CompiledPlacementProfile
  userPolicyGroupByUserId : ℕ → Option ℕ
  teamPolicyGroupByTeamId : ℕ → Option ℕ
  enabledRemoteNodeIds : List ℕ
  remoteNodeIdByPolicyId : ℕ → Option (Option ℕ)
  systemDefaultPolicyGroupId : Option ℕ
  systemDefaultPolicyId : Option ℕ

section Load

variable (connectors : Connectors) (routing : Routing)

/-- The remote nodes of the policies that have one; an unreadable policy ends the load. -/
def remoteBindings : List StoragePolicy → Except AsterError (List (ℕ × Option ℕ))
  | [] => .ok []
  | policy :: policies =>
    match connectors.resolveRemotePolicyBinding policy with
    | .error e => .error e
    | .ok binding =>
      match remoteBindings policies with
      | .error e => .error e
      | .ok bindings => .ok ((binding.map fun node => (policy.id, node)).toList ++ bindings)

def Routing.enabledRemoteNodeIds : List ℕ :=
  (routing.managedFollowers.rows.filter ManagedFollower.isEnabled).map ManagedFollower.id

/-- `u32::try_from` of an `i32`. -/
def toU32 (value : ℤ) : Option ℕ := if 0 ≤ value then some value.toNat else none

def targetExclusion (remoteNodeId : ℕ → Option (Option ℕ)) (policy : StoragePolicy) : Option TargetExclusionReason :=
  match connectors.resolvePolicyUploadTransport policy with
  | .error _ => some .incompatible
  | .ok () =>
    match remoteNodeId policy.id with
    | none => none
    | some none => some .unavailable
    | some (some node) => if node ∈ routing.enabledRemoteNodeIds then none else some .unavailable

/-- A target without a policy or with an invalid number is left out. -/
def compileTarget (remoteNodeId : ℕ → Option (Option ℕ)) (target : StoragePolicyGroupRuleTarget) :
    Option PlacementTarget :=
  match routing.policies.get target.policyId, toU32 target.weight, toU32 target.stableOrder with
  | some policy, some weight, some stableOrder =>
    some ⟨target.id, target.policyId, weight, stableOrder, target.acceptingNewWrites, policy.maxFileSize,
      targetExclusion connectors routing remoteNodeId policy⟩
  | _, _, _ => none

def targetsOfRule (remoteNodeId : ℕ → Option (Option ℕ)) (ruleId : ℕ) : List PlacementTarget :=
  ((sortByKey StoragePolicyGroupRuleTarget.stableOrder
      (sortByKey (fun target => (target.id : ℤ)) routing.placementTargets.rows)).filter
    fun target => target.ruleId = ruleId).filterMap (compileTarget connectors routing remoteNodeId)

def ofEnvelope {α : Type} (envelope : Option (PlacementPayloadEnvelope α)) : Option α :=
  envelope.bind fun payload =>
    if payload.formatVersion ≠ placementPayloadFormatVersion ∨ payload.schemaVersion ≠ placementPayloadSchemaVersion then
      none
    else some payload.values

/-- A rule that cannot be read is left out. -/
def compileRule (remoteNodeId : ℕ → Option (Option ℕ)) (rule : StoragePolicyGroupRule) : Option PlacementRule :=
  match ofEnvelope (connectors.matcherFromStr rule.matcher) with
  | none => none
  | some values =>
    match compileMatcher connectors.normalizeExtensionFilter values with
    | .error _ => none
    | .ok matcher =>
      match parseSelectionMode rule.selectionMode, parseUnavailableBehavior rule.unavailableBehavior with
      | some selectionMode, some unavailableBehavior =>
        some ⟨rule.id, rule.name, rule.description, rule.priority, rule.isEnabled, matcher, selectionMode,
          unavailableBehavior, targetsOfRule connectors routing remoteNodeId rule.id⟩
      | _, _ => none

def rulesOfGroup (remoteNodeId : ℕ → Option (Option ℕ)) (groupId : ℕ) : List PlacementRule :=
  ((sortByKey StoragePolicyGroupRule.priority
      (sortByKey (fun rule => (rule.id : ℤ)) routing.placementRules.rows)).filter
    fun rule => rule.groupId = groupId).filterMap (compileRule connectors routing remoteNodeId)

def compileProfile (remoteNodeId : ℕ → Option (Option ℕ)) (group : StoragePolicyGroup) :
    Option CompiledPlacementProfile :=
  match ofEnvelope (connectors.admissionFromStr group.admissionConfig) with
  | none => none
  | some values =>
    match compileAdmission connectors.normalizeExtensionFilter values,
        parseExecutionPreference group.uploadExecutionPreference with
    | .ok admission, some executionPreference =>
      some ⟨group.id, group.routingRevision, group.isEnabled, admission, executionPreference,
        rulesOfGroup connectors routing remoteNodeId group.id⟩
    | _, _ => none

/-- `PolicySnapshotData::load`, once the tables are read. -/
def load (tables : Tables) : Except AsterError PolicySnapshotData :=
  let policies := sortByKey (fun policy => (policy.id : ℤ)) tables.policies.rows
  let policyGroups := sortByKey (fun group => (group.id : ℤ)) tables.policyGroups.rows
  match remoteBindings connectors policies with
  | .error e => .error e
  | .ok bindings =>
    let remoteNodeId := fun policyId => (bindings.find? fun binding => binding.1 = policyId).map Prod.snd
    .ok {
      generation := 0
      policiesById := tables.policies.get
      policyGroupsById := tables.policyGroups.get
      placementProfilesById := fun id =>
        (tables.policyGroups.get id).bind (compileProfile connectors tables.toRouting remoteNodeId)
      userPolicyGroupByUserId := fun id => (tables.users.get id).bind User.policyGroupId
      teamPolicyGroupByTeamId := fun id => (tables.teams.get id).bind Team.policyGroupId
      enabledRemoteNodeIds := tables.enabledRemoteNodeIds
      remoteNodeIdByPolicyId := remoteNodeId
      systemDefaultPolicyGroupId := (policyGroups.find? StoragePolicyGroup.isDefault).map StoragePolicyGroup.id
      systemDefaultPolicyId := (policies.find? StoragePolicy.isDefault).map StoragePolicy.id }

end Load

/-! ### The snapshot -/

namespace PolicySnapshotData

/-- `u64::wrapping_add(1)` -/
def nextGeneration (generation : ℕ) : ℕ := (generation + 1) % 2 ^ 64

def resolveDefaultPolicyGroupId (snapshot : PolicySnapshotData) (userId : ℕ) : Option ℕ :=
  snapshot.userPolicyGroupByUserId userId

/-- `set_user_policy_group`, or `remove_user_policy_group` for `none`. -/
def publishUserPolicyGroup (snapshot : PolicySnapshotData) (userId : ℕ) (group : Option ℕ) : PolicySnapshotData :=
  { snapshot with
    userPolicyGroupByUserId := Function.update snapshot.userPolicyGroupByUserId userId group
    generation := nextGeneration snapshot.generation }

/-- `replace_if_current` -/
def replaceIfCurrent (snapshot : PolicySnapshotData) (generation : ℕ) (next : PolicySnapshotData) :
    Option PolicySnapshotData :=
  if snapshot.generation ≠ generation then none else some { next with generation := nextGeneration generation }

end PolicySnapshotData

/-! ### Calls -/

/-- The tables that a load has read so far. -/
structure Reads where
  policies : Option (Table StoragePolicy.id) := none
  policyGroups : Option (Table StoragePolicyGroup.id) := none
  placementRules : Option (Table StoragePolicyGroupRule.id) := none
  placementTargets : Option (Table StoragePolicyGroupRuleTarget.id) := none
  managedFollowers : Option (Table ManagedFollower.id) := none
  users : Option (Table User.id) := none
  teams : Option (Table Team.id) := none

/-- Read the next table; `none` when all are read. -/
def Reads.next (reads : Reads) (db : Tables) : Option Reads :=
  if reads.policies.isNone then some { reads with policies := some db.policies }
  else if reads.policyGroups.isNone then some { reads with policyGroups := some db.policyGroups }
  else if reads.placementRules.isNone then some { reads with placementRules := some db.placementRules }
  else if reads.placementTargets.isNone then some { reads with placementTargets := some db.placementTargets }
  else if reads.managedFollowers.isNone then some { reads with managedFollowers := some db.managedFollowers }
  else if reads.users.isNone then some { reads with users := some db.users }
  else if reads.teams.isNone then some { reads with teams := some db.teams }
  else none

def Reads.tables (reads : Reads) : Option Tables :=
  match reads.policies, reads.policyGroups, reads.placementRules, reads.placementTargets, reads.managedFollowers,
      reads.users, reads.teams with
  | some policies, some policyGroups, some placementRules, some placementTargets, some managedFollowers, some users,
      some teams =>
    some ⟨⟨policies, policyGroups, placementRules, placementTargets, managedFollowers⟩, users, teams⟩
  | _, _, _, _, _, _, _ => none

/-- `change` commits what it makes of the policies, groups, rules, targets and nodes, and reloads. -/
inductive Request
  | change (routing : Routing)
  | update (id : ℕ) (policyGroupId : Option ℕ)
  | forceDelete (targetUserId : ℕ)

inductive Phase
  | ready | loaded | groupKnown | checked | purging | committed | reload | loading | done
  | failed (error : AsterError)
  deriving DecidableEq

/-- A call with what it has read. `started` is how many publications there were when the reload began. -/
structure Call where
  request : Request
  phase : Phase := .ready
  existing : Option User := none
  generation : ℕ := 0
  started : ℕ := 0
  reads : Reads := {}

/-- `published` counts the publications. -/
structure World where
  db : Tables
  snapshot : PolicySnapshotData
  published : ℕ
  calls : List Call

def World.setCall (w : World) (i : ℕ) (call : Call) : World := { w with calls := w.calls.set i call }

/-! ### Statements -/

/-- `group_has_assignable_target` -/
def groupHasAssignableTarget (db : Tables) (groupId : ℕ) : Bool :=
  db.placementTargets.rows.any fun target =>
    target.acceptingNewWrites && (db.policies.get target.policyId).isSome &&
      (db.placementRules.get target.ruleId).any fun rule => decide (rule.groupId = groupId) && rule.isEnabled

def userNotFound (id : ℕ) : AsterError := recordNotFound { message := "user #" ++ toString id }

def loadExisting (w : World) (i : ℕ) (call : Call) (id : ℕ) : World :=
  match w.db.users.get id with
  | none => w.setCall i { call with phase := .failed (userNotFound id) }
  | some existing => w.setCall i { call with phase := .loaded, existing := some existing }

def findGroup (w : World) (i : ℕ) (call : Call) (groupId : ℕ) : World :=
  match w.db.policyGroups.get groupId with
  | none =>
    w.setCall i { call with
      phase := .failed (recordNotFound { message := "storage_policy_group #" ++ toString groupId }) }
  | some group =>
    if !group.isEnabled then
      w.setCall i { call with
        phase := .failed (validationError { message := "cannot assign a disabled storage policy group" }) }
    else w.setCall i { call with phase := .groupKnown }

def checkTarget (w : World) (i : ℕ) (call : Call) (groupId : ℕ) : World :=
  if !groupHasAssignableTarget w.db groupId then
    w.setCall i { call with
      phase := .failed
        (validationError { message := "cannot assign a storage policy group without an assignable target" }) }
  else w.setCall i { call with phase := .checked }

/-- What the call believes of its input. -/
def policyGroupChanged (call : Call) (groupId : ℕ) : Bool := call.existing.any fun user => user.policyGroupId ≠ some groupId

def assignGroup (users : Table User.id) (id groupId : ℕ) : Table User.id :=
  users.updateWhere (fun user => user.id = id) (fun user => { user with policyGroupId := some groupId }) fun _ => rfl

/-- The transaction of an update. A column that is not given stays. -/
def commitUpdate (w : World) (i : ℕ) (call : Call) (id : ℕ) (policyGroupId : Option ℕ) : World :=
  match w.db.users.get id, policyGroupId with
  | none, _ =>
    w.setCall i { call with
      phase := .failed (databaseOperation { message := "None of the records are updated" }) }
  | some _, none => w.setCall i { call with phase := .done }
  | some _, some groupId =>
    { w.setCall i { call with phase := if policyGroupChanged call groupId then .committed else .done } with
      db := { w.db with users := assignGroup w.db.users id groupId } }

def beginDelete (w : World) (i : ℕ) (call : Call) (id : ℕ) : World :=
  match w.db.users.get id with
  | none => w.setCall i { call with phase := .failed (userNotFound id) }
  | some user =>
    if id = 1 then
      w.setCall i { call with
        phase := .failed (validationError { message := "cannot delete the initial admin account" }) }
    else if user.isAdmin then
      w.setCall i { call with
        phase := .failed (validationError { message := "cannot force-delete an admin user, demote to user first" }) }
    else w.setCall i { call with phase := .purging }

/-- The last transaction of `force_delete`. -/
def commitDelete (w : World) (i : ℕ) (call : Call) (id : ℕ) : World :=
  match w.db.users.get id with
  | none => w.setCall i { call with phase := .failed (userNotFound id) }
  | some _ =>
    { w.setCall i { call with phase := .committed } with
      db := { w.db with users := w.db.users.deleteWhere fun user => user.id = id } }

/-- The entry of the user is published. -/
def publish (w : World) (i : ℕ) (call : Call) (id : ℕ) (group : Option ℕ) : World :=
  { w.setCall i { call with phase := .done } with
    snapshot := w.snapshot.publishUserPolicyGroup id group
    published := w.published + 1 }

def commitChange (w : World) (i : ℕ) (call : Call) (routing : Routing) : World :=
  { w.setCall i { call with phase := .reload } with db := { w.db with toRouting := routing } }

/-- A round of `reload` begins. -/
def readGeneration (w : World) (i : ℕ) (call : Call) : World :=
  w.setCall i { call with
    phase := .loading, generation := w.snapshot.generation, started := w.published, reads := {} }

/-- The next table is read; after the last one the snapshot is replaced, or the next round begins. -/
def loadStep (connectors : Connectors) (w : World) (i : ℕ) (call : Call) : Option World :=
  match call.reads.next w.db with
  | some reads => some (w.setCall i { call with reads := reads })
  | none =>
    call.reads.tables.map fun tables =>
      match load connectors tables with
      | .error e => w.setCall i { call with phase := .failed e }
      | .ok next =>
        match w.snapshot.replaceIfCurrent call.generation next with
        | none => w.setCall i { call with phase := .reload }
        | some snapshot =>
          { w.setCall i { call with phase := .done } with snapshot := snapshot, published := w.published + 1 }

def nextOfChange (connectors : Connectors) (w : World) (i : ℕ) (call : Call) (routing : Routing) : Option World :=
  match call.phase with
  | .ready => some (commitChange w i call routing)
  | .reload => some (readGeneration w i call)
  | .loading => loadStep connectors w i call
  | _ => none

def nextOfUpdate (w : World) (i : ℕ) (call : Call) (id : ℕ) (policyGroupId : Option ℕ) : Option World :=
  match call.phase, policyGroupId with
  | .ready, _ => some (loadExisting w i call id)
  | .loaded, some groupId => some (findGroup w i call groupId)
  | .loaded, none => some (commitUpdate w i call id none)
  | .groupKnown, some groupId => some (checkTarget w i call groupId)
  | .checked, some groupId => some (commitUpdate w i call id (some groupId))
  | .committed, some groupId => some (publish w i call id (some groupId))
  | _, _ => none

def nextOfDelete (w : World) (i : ℕ) (call : Call) (id : ℕ) : Option World :=
  match call.phase with
  | .ready => some (beginDelete w i call id)
  | .purging => some (commitDelete w i call id)
  | .committed => some (publish w i call id none)
  | _ => none

def next (connectors : Connectors) (w : World) (i : ℕ) (call : Call) : Option World :=
  match call.request with
  | .change routing => nextOfChange connectors w i call routing
  | .update id policyGroupId => nextOfUpdate w i call id policyGroupId
  | .forceDelete id => nextOfDelete w i call id

/-! ### The system -/

/-- Nothing is committed yet. -/
def Phase.isOpen : Phase → Bool
  | .ready | .loaded | .groupKnown | .checked | .purging => true
  | .committed | .reload | .loading | .done | .failed _ => false

inductive Label
  | start (request : Request)
  | next (i : ℕ)
  | abort (i : ℕ)

def step (connectors : Connectors) (w : World) : Label → Option World
  | .start request => some { w with calls := w.calls ++ [{ request := request }] }
  | .next i => (w.calls[i]?).bind fun call => next connectors w i call
  | .abort i =>
    match w.calls[i]? with
    | none => none
    | some call =>
      if call.phase.isOpen then
        some (w.setCall i { call with phase := .failed (databaseOperation { message := "rolled back" }) })
      else none

def snapshots (connectors : Connectors) : Lts World Label := ⟨step connectors⟩

/-! ### Convergence -/

def Phase.isOver : Phase → Bool
  | .done | .failed _ => true
  | .ready | .loaded | .groupKnown | .checked | .purging | .committed | .reload | .loading => false

/-- Nothing is in progress. -/
def World.Quiet (w : World) : Prop := ∀ call ∈ w.calls, call.phase.isOver

/-- The users have their groups. -/
def World.UsersAgree (w : World) : Prop :=
  ∀ user ∈ w.db.users.rows, w.snapshot.resolveDefaultPolicyGroupId user.id = user.policyGroupId

/-- The policies, groups and profiles are those of the database. -/
def World.RoutingAgrees (connectors : Connectors) (w : World) : Prop :=
  ∀ data, load connectors w.db = .ok data →
    w.snapshot.policiesById = data.policiesById ∧ w.snapshot.policyGroupsById = data.policyGroupsById ∧
      w.snapshot.placementProfilesById = data.placementProfilesById

/-- A process whose snapshot is what the database has, before anything happens. -/
structure World.Fresh (connectors : Connectors) (w : World) : Prop where
  calls : w.calls = []
  published : w.snapshot.generation = w.published % 2 ^ 64
  users : w.UsersAgree
  routing : w.RoutingAgrees connectors

/-- The call is going to publish this entry. -/
def Call.publishes (call : Call) (id groupId : ℕ) : Bool :=
  match call.request, call.phase with
  | .update id' (some groupId'), .committed => decide (id' = id ∧ groupId' = groupId)
  | _, _ => false

/-- A reload ends before `2 ^ 64` publications. -/
def Timely (w : World) : Label → Prop
  | .next i =>
    match w.calls[i]? with
    | some call => call.phase = .loading → w.published < call.started + 2 ^ 64
    | none => True
  | _ => True

/-- Moreover, an update that does not believe that it changes the group of the user does not change it, and a group is
published while it is the group of the user or that one is going to be published. -/
def Orderly (w : World) (l : Label) : Prop :=
  Timely w l ∧
    match l with
    | .next i =>
      match w.calls[i]? with
      | none => True
      | some call =>
        match call.request, call.phase with
        | .update id (some groupId), .checked =>
          policyGroupChanged call groupId || (w.db.users.get id).all fun row => row.policyGroupId = some groupId
        | .update id (some groupId), .committed =>
          (w.db.users.get id).all fun row => row.policyGroupId = some groupId ||
            row.policyGroupId.any fun current => (w.calls.eraseIdx i).any fun other => other.publishes id current
        | _, _ => True
    | _ => True

instance (w : World) (l : Label) : Decidable (Timely w l) := by
  unfold Timely
  split
  · split <;> infer_instance
  · infer_instance

instance (w : World) (l : Label) : Decidable (Orderly w l) := by
  unfold Orderly
  refine @instDecidableAnd _ _ _ ?_
  split
  · split
    · infer_instance
    · split <;> infer_instance
  · infer_instance

end AsterDrive.Placement
