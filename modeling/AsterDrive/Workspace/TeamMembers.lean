import AsterDrive.Lib.Table
import AsterDrive.Remote.BindingRevisions

/-!
# Workspace.TeamMembers — the members of teams, changed concurrently

`add_member`, `update_member_role` and `remove_member` with their variants for administrators, one statement at a time.
Each takes the row of the team before it reads a membership and holds it until it ends. `force_delete` of a user takes
no team row: the foreign key removes the memberships of the user with the user.
-/

namespace AsterDrive.Workspace.TeamMembers

open AsterError

/-! ### Rows -/

inductive TeamMemberRole
  | owner | admin | member
  deriving DecidableEq

def TeamMemberRole.canManageTeam : TeamMemberRole → Bool
  | .owner | .admin => true
  | .member => false

def TeamMemberRole.isOwner : TeamMemberRole → Bool
  | .owner => true
  | .admin | .member => false

structure User where
  id : ℕ
  username : String
  email : String
  isActive : Bool
  isAdmin : Bool

structure TeamMember where
  id : ℕ
  teamId : ℕ
  userId : ℕ
  role : TeamMemberRole
  deriving DecidableEq

structure AddTeamMemberInput where
  userId : Option ℕ
  identifier : Option String
  role : TeamMemberRole

/-- What is asked for; the variants for administrators have no actor. -/
inductive Request
  | addMember (teamId actorUserId : ℕ) (input : AddTeamMemberInput)
  | addAdminMember (teamId : ℕ) (input : AddTeamMemberInput)
  | updateMemberRole (teamId actorUserId memberUserId : ℕ) (role : TeamMemberRole)
  | updateAdminMemberRole (teamId memberUserId : ℕ) (role : TeamMemberRole)
  | removeMember (teamId actorUserId memberUserId : ℕ)
  | removeAdminMember (teamId memberUserId : ℕ)
  | forceDelete (targetUserId : ℕ)

namespace Request

def team : Request → Option ℕ
  | addMember teamId _ _ | addAdminMember teamId _ | updateMemberRole teamId _ _ _ | updateAdminMemberRole teamId _ _
  | removeMember teamId _ _ | removeAdminMember teamId _ => some teamId
  | forceDelete _ => none

def actor : Request → Option ℕ
  | addMember _ actorUserId _ | updateMemberRole _ actorUserId _ _ | removeMember _ actorUserId _ => some actorUserId
  | addAdminMember _ _ | updateAdminMemberRole _ _ _ | removeAdminMember _ _ | forceDelete _ => none

/-- The input of an addition. -/
def addition : Request → Option AddTeamMemberInput
  | addMember _ _ input | addAdminMember _ input => some input
  | _ => none

/-- The member whose row is changed or removed. -/
def memberUser : Request → Option ℕ
  | updateMemberRole _ _ memberUserId _ | updateAdminMemberRole _ memberUserId _ | removeMember _ _ memberUserId
  | removeAdminMember _ memberUserId => some memberUserId
  | _ => none

/-- The role that the member has afterwards; `none` for a removal. -/
def newRole : Request → Option TeamMemberRole
  | updateMemberRole _ _ _ role | updateAdminMemberRole _ _ role => some role
  | _ => none

end Request

inductive Phase
  | ready | resolved | locked | actorKnown | targetKnown | ownersCounted | ownersOfManagers | checked | written | confirmed
  | purging | done
  | failed (error : AsterError)
  deriving DecidableEq

/-- A request with what its transaction has read: the target user of an addition, the rows of actor and target, the
number of owners. -/
structure Call where
  request : Request
  phase : Phase := .ready
  user : Option User := none
  actorMember : Option TeamMember := none
  target : Option TeamMember := none
  ownerCount : ℕ := 0

/-- What is committed, and the calls. `teams` are the teams that are not archived. -/
structure World where
  users : SerialTable User.id
  members : SerialTable TeamMember.id
  teams : List ℕ
  calls : List Call

def World.setCall (w : World) (i : ℕ) (call : Call) : World := { w with calls := w.calls.set i call }

/-! ### Queries -/

def findByTeamAndUser (w : World) (teamId userId : ℕ) : Option TeamMember :=
  w.members.rows.find? fun m => m.teamId = teamId ∧ m.userId = userId

/-- Counts the rows that join to a user. -/
def countByTeamAndRole (w : World) (teamId : ℕ) (role : TeamMemberRole) : ℕ :=
  w.members.rows.countP fun m => m.teamId = teamId ∧ m.role = role ∧ (w.users.get m.userId).isSome

def resolveTargetUser (w : World) (userId : Option ℕ) (identifier : Option String) : Except AsterError User :=
  match userId, (identifier.map Remote.BindingRevisions.trim).filter fun s => s ≠ "" with
  | some _, some _ => .error (validationError { message := "specify either user_id or identifier, not both" })
  | none, none => .error (validationError { message := "user_id or identifier is required" })
  | some userId, none =>
    match w.users.get userId with
    | some user => .ok user
    | none => .error (recordNotFound { message := "user #" ++ toString userId })
  | none, some identifier =>
    match w.users.rows.find? fun user => user.username = identifier with
    | some user => .ok user
    | none =>
      match w.users.rows.find? fun user => user.email = identifier with
      | some user => .ok user
      | none => .error (recordNotFound { message := "user '" ++ identifier ++ "'" })

/-! ### Checks -/

def ensureCanManageTeam (role : TeamMemberRole) : Except AsterError Unit :=
  if !role.canManageTeam then
    .error (authForbidden { message := "team owner or admin role is required", apiCode := some .teamAdminOrOwnerRequired })
  else .ok ()

def ensureNotLastOwner (ownerCount : ℕ) : Except AsterError Unit :=
  if ownerCount ≤ 1 then .error (validationError { message := "team must keep at least one owner" }) else .ok ()

def ensureNotLastManager (ownerCount adminCount : ℕ) : Except AsterError Unit :=
  if ownerCount + adminCount ≤ 1 then
    .error (validationError { message := "team must keep at least one admin or owner" })
  else .ok ()

def existingTeamMemberError : AsterError :=
  validationError { message := "user is already a team member", apiCode := some .teamMemberExists }

def notTeamMemberError : AsterError :=
  authForbidden { message := "not a member of this team", apiCode := some .teamNotMember }

def ownerRequired (message : String) : AsterError := authForbidden { message, apiCode := some .teamOwnerRequired }

def memberNotFound (userId : ℕ) : AsterError := recordNotFound { message := "team member user #" ++ toString userId }

/-- What is asked of the actor as soon as its membership is read. -/
def checkActor (request : Request) (actor : TeamMember) : Except AsterError Unit :=
  match request with
  | .addMember _ _ input =>
    match ensureCanManageTeam actor.role with
    | .error e => .error e
    | .ok () =>
      if !actor.role.isOwner && input.role.isOwner then .error (ownerRequired "only a team owner can assign owner role")
      else .ok ()
  | .updateMemberRole _ _ _ _ => ensureCanManageTeam actor.role
  | _ => .ok ()

/-- What is asked of the actor once the membership of the target is read. -/
def checkActorOnTarget (request : Request) (actor target : TeamMember) : Except AsterError Unit :=
  match request with
  | .updateMemberRole _ _ _ role =>
    if !actor.role.isOwner && (target.role.isOwner || role.isOwner) then
      .error (ownerRequired "only a team owner can manage owner memberships")
    else .ok ()
  | .removeMember _ actorUserId memberUserId =>
    if actorUserId ≠ memberUserId then
      match ensureCanManageTeam actor.role with
      | .error e => .error e
      | .ok () =>
        if !actor.role.isOwner && target.role.isOwner then .error (ownerRequired "only a team owner can remove an owner")
        else .ok ()
    else .ok ()
  | _ => .ok ()

/-- The target was an owner and is not afterwards. -/
def losesOwner (request : Request) (target : TeamMember) : Bool :=
  target.role.isOwner && !(request.newRole.any TeamMemberRole.isOwner)

def losesManager (request : Request) (target : TeamMember) : Bool :=
  target.role.canManageTeam && !(request.newRole.any TeamMemberRole.canManageTeam)

/-! ### Locks -/

/-- From the lock on the team to the end. -/
def Phase.holdsTeam : Phase → Bool
  | .locked | .actorKnown | .targetKnown | .ownersCounted | .ownersOfManagers | .checked | .written | .confirmed => true
  | .ready | .resolved | .purging | .done | .failed _ => false

def Call.holds (call : Call) (teamId : ℕ) : Bool := call.phase.holdsTeam && decide (call.request.team = some teamId)

def World.teamFree (w : World) (teamId : ℕ) : Bool := w.calls.all fun call => !call.holds teamId

/-- The user whose membership the call has written. -/
def Call.writes (call : Call) : Option ℕ :=
  match call.phase with
  | .written | .confirmed => (call.user.map User.id).or call.request.memberUser
  | _ => none

/-! ### Statements -/

/-- `lock_active_by_id` -/
def lockTeam (w : World) (i : ℕ) (call : Call) (teamId : ℕ) : Option World :=
  if !w.teamFree teamId then none
  else if teamId ∈ w.teams then some (w.setCall i { call with phase := .locked })
  else some (w.setCall i { call with phase := .failed (recordNotFound { message := "team #" ++ toString teamId }) })

def resolve (w : World) (i : ℕ) (call : Call) (input : AddTeamMemberInput) : World :=
  match resolveTargetUser w input.userId input.identifier with
  | .error e => w.setCall i { call with phase := .failed e }
  | .ok user =>
    if !user.isActive then
      w.setCall i { call with phase := .failed (validationError { message := "cannot add a disabled user to a team" }) }
    else w.setCall i { call with phase := .resolved, user := some user }

def readActor (w : World) (i : ℕ) (call : Call) (teamId actorUserId : ℕ) : World :=
  match findByTeamAndUser w teamId actorUserId with
  | none => w.setCall i { call with phase := .failed notTeamMemberError }
  | some actor =>
    match checkActor call.request actor with
    | .error e => w.setCall i { call with phase := .failed e }
    | .ok () => w.setCall i { call with phase := .actorKnown, actorMember := some actor }

/-- The target of a change, or that the user to add is not a member yet. -/
def readTarget (w : World) (i : ℕ) (call : Call) (teamId : ℕ) : World :=
  match call.user, call.request.memberUser with
  | some user, _ =>
    match findByTeamAndUser w teamId user.id with
    | some _ => w.setCall i { call with phase := .failed existingTeamMemberError }
    | none => w.setCall i { call with phase := .checked }
  | none, some memberUserId =>
    match findByTeamAndUser w teamId memberUserId with
    | none => w.setCall i { call with phase := .failed (memberNotFound memberUserId) }
    | some target =>
      match call.actorMember with
      | none => w.setCall i { call with phase := .targetKnown, target := some target }
      | some actor =>
        match checkActorOnTarget call.request actor target with
        | .error e => w.setCall i { call with phase := .failed e }
        | .ok () => w.setCall i { call with phase := .targetKnown, target := some target }
  | none, none => w

def countOwners (w : World) (i : ℕ) (call : Call) (teamId : ℕ) : World :=
  match ensureNotLastOwner (countByTeamAndRole w teamId .owner) with
  | .error e => w.setCall i { call with phase := .failed e }
  | .ok () => w.setCall i { call with phase := .ownersCounted }

/-- The first half of `ensure_not_last_manager`. -/
def countOwnersOfManagers (w : World) (i : ℕ) (call : Call) (teamId : ℕ) : World :=
  w.setCall i { call with phase := .ownersOfManagers, ownerCount := countByTeamAndRole w teamId .owner }

def countAdmins (w : World) (i : ℕ) (call : Call) (teamId : ℕ) : World :=
  match ensureNotLastManager call.ownerCount (countByTeamAndRole w teamId .admin) with
  | .error e => w.setCall i { call with phase := .failed e }
  | .ok () => w.setCall i { call with phase := .checked }

/-- The insert, under the unique index and the reference to the user. -/
def insertMember (w : World) (i : ℕ) (call : Call) (teamId : ℕ) (user : User) : World :=
  if (findByTeamAndUser w teamId user.id).isSome then w.setCall i { call with phase := .failed existingTeamMemberError }
  else if (w.users.get user.id).isNone then
    w.setCall i { call with phase := .failed (databaseOperation { message := "foreign key constraint failed" }) }
  else w.setCall i { call with phase := .written }

/-- The update or the delete of the target; a row that is gone is an error. -/
def changeMember (w : World) (i : ℕ) (call : Call) (target : TeamMember) : World :=
  match w.members.get target.id with
  | none => w.setCall i { call with phase := .failed (recordNotFound { message := "team_member #" ++ toString target.id }) }
  | some _ => w.setCall i { call with phase := .written }

def write (w : World) (i : ℕ) (call : Call) (teamId : ℕ) : World :=
  match call.user, call.target with
  | some user, _ => insertMember w i call teamId user
  | none, some target => changeMember w i call target
  | none, none => w

/-- The user of an updated member is read before the commit. -/
def readUpdatedUser (w : World) (i : ℕ) (call : Call) (memberUserId : ℕ) : World :=
  match w.users.get memberUserId with
  | none => w.setCall i { call with phase := .failed (recordNotFound { message := "user #" ++ toString memberUserId }) }
  | some _ => w.setCall i { call with phase := .confirmed }

/-- What the transaction has written is there. -/
def applyWrite (members : SerialTable TeamMember.id) (call : Call) (teamId : ℕ) : SerialTable TeamMember.id :=
  match call.user, call.request.addition, call.target, call.request.newRole with
  | some user, some input, _, _ => members.insert (fun id => ⟨id, teamId, user.id, input.role⟩) fun _ => rfl
  | _, _, some target, some role =>
    members.updateRows (fun m => m.id = target.id) (fun m => { m with role := role }) fun _ => rfl
  | _, _, some target, none => members.deleteRows fun m => m.id = target.id
  | _, _, none, _ => members

def commitWrite (w : World) (i : ℕ) (call : Call) (teamId : ℕ) : World :=
  { w.setCall i { call with phase := .done } with members := applyWrite w.members call teamId }

/-- The checks of `force_delete`. What it deletes before the last transaction is not about members. -/
def beginDelete (w : World) (i : ℕ) (call : Call) (userId : ℕ) : World :=
  match w.users.get userId with
  | none => w.setCall i { call with phase := .failed (recordNotFound { message := "user #" ++ toString userId }) }
  | some user =>
    if userId = 1 then
      w.setCall i { call with
        phase := .failed (validationError { message := "cannot delete the initial admin account" }) }
    else if user.isAdmin then
      w.setCall i { call with
        phase := .failed (validationError { message := "cannot force-delete an admin user, demote to user first" }) }
    else w.setCall i { call with phase := .purging }

/-- The last transaction of `force_delete`. It waits for a transaction that has written a membership of the user. -/
def deleteUser (w : World) (i : ℕ) (call : Call) (userId : ℕ) : Option World :=
  if w.calls.any fun other => other.writes = some userId then none
  else
    match w.users.get userId with
    | none =>
      some (w.setCall i { call with phase := .failed (recordNotFound { message := "user #" ++ toString userId }) })
    | some _ =>
      some { w.setCall i { call with phase := .done } with
        users := w.users.deleteRows fun user => user.id = userId
        members := w.members.deleteRows fun m => m.userId = userId }

/-- The next statement of a call on a team. -/
def nextOnTeam (w : World) (i : ℕ) (call : Call) (teamId : ℕ) : Option World :=
  match call.phase with
  | .ready =>
    match call.request.addition with
    | some input => some (resolve w i call input)
    | none => lockTeam w i call teamId
  | .resolved => lockTeam w i call teamId
  | .locked =>
    match call.request.actor with
    | some actorUserId => some (readActor w i call teamId actorUserId)
    | none => some (readTarget w i call teamId)
  | .actorKnown => some (readTarget w i call teamId)
  | .targetKnown =>
    if call.target.any (losesOwner call.request) then some (countOwners w i call teamId)
    else if call.target.any (losesManager call.request) then some (countOwnersOfManagers w i call teamId)
    else some (write w i call teamId)
  | .ownersCounted =>
    if call.target.any (losesManager call.request) then some (countOwnersOfManagers w i call teamId)
    else some (write w i call teamId)
  | .ownersOfManagers => some (countAdmins w i call teamId)
  | .checked => some (write w i call teamId)
  | .written =>
    match call.request.newRole, call.request.memberUser with
    | some _, some memberUserId => some (readUpdatedUser w i call memberUserId)
    | _, _ => some (commitWrite w i call teamId)
  | .confirmed => some (commitWrite w i call teamId)
  | .purging => none
  | .done => none
  | .failed _ => none

def nextOfDelete (w : World) (i : ℕ) (call : Call) (userId : ℕ) : Option World :=
  match call.phase with
  | .ready => some (beginDelete w i call userId)
  | .purging => deleteUser w i call userId
  | _ => none

def next (w : World) (i : ℕ) (call : Call) : Option World :=
  match call.request, call.request.team with
  | .forceDelete targetUserId, _ => nextOfDelete w i call targetUserId
  | _, some teamId => nextOnTeam w i call teamId
  | _, none => none

/-! ### The system -/

def Phase.isOver : Phase → Bool
  | .done | .failed _ => true
  | _ => false

inductive Label
  | register (username email : String) (isActive isAdmin : Bool)
  | start (request : Request)
  | next (i : ℕ)
  | abort (i : ℕ)

def step (w : World) : Label → Option World
  | .register username email isActive isAdmin =>
    some { w with users := w.users.insert (fun id => ⟨id, username, email, isActive, isAdmin⟩) fun _ => rfl }
  | .start request => some { w with calls := w.calls ++ [{ request := request }] }
  | .next i => (w.calls[i]?).bind fun call => next w i call
  | .abort i =>
    match w.calls[i]? with
    | none => none
    | some call =>
      if call.phase.isOver then none
      else some (w.setCall i { call with phase := .failed (databaseOperation { message := "rolled back" }) })

def membership : Lts World Label := ⟨step⟩

/-! ### Owners and managers -/

/-- The managers of a team. -/
def World.managers (w : World) (teamId : ℕ) : List TeamMember :=
  w.members.rows.filter fun m => m.teamId = teamId ∧ m.role.canManageTeam

def World.HasOwner (w : World) (teamId : ℕ) : Prop := ∃ m ∈ w.managers teamId, m.role.isOwner

def World.HasManager (w : World) (teamId : ℕ) : Prop := w.managers teamId ≠ []

/-- The call has counted the owners, if that is asked for, and goes on. -/
def Phase.ownersKnown : Phase → Bool
  | .ownersCounted | .ownersOfManagers | .checked | .written | .confirmed => true
  | .ready | .resolved | .locked | .actorKnown | .targetKnown | .purging | .done | .failed _ => false

/-- A call has counted on others than this member, which is about to lose its role. -/
def World.outgoing (w : World) (loses : Request → TeamMember → Bool) (m : TeamMember) : Bool :=
  w.calls.any fun call =>
    call.phase.ownersKnown && call.target.any fun target => target.id = m.id && loses call.request target

/-- Each team in which the user is a manager has another one that stays, another owner if the user is an owner. -/
def World.dispensable (w : World) (userId : ℕ) : Bool :=
  w.members.rows.all fun m => m.userId ≠ userId || !m.role.canManageTeam ||
    (w.managers m.teamId).any fun o => o.userId ≠ userId && !w.outgoing losesManager o &&
      (!m.role.isOwner || (o.role.isOwner && !w.outgoing losesOwner o))

/-- A user is deleted only when its teams can do without it. -/
def Spares (w : World) : Label → Prop
  | .next i =>
    match w.calls[i]? with
    | some ⟨.forceDelete userId, .purging, _, _, _, _⟩ => w.dispensable userId
    | _ => True
  | _ => True

instance (w : World) (l : Label) : Decidable (Spares w l) := by
  unfold Spares
  split
  · split <;> infer_instance
  · infer_instance

/-- Users are referred to, memberships are unique, and nothing runs. -/
structure World.Idle (w : World) : Prop where
  calls : w.calls = []
  users : ∀ m ∈ w.members.rows, w.users.get m.userId ≠ none
  unique : ∀ m ∈ w.members.rows, ∀ m' ∈ w.members.rows, m.teamId = m'.teamId → m.userId = m'.userId → m = m'

end AsterDrive.Workspace.TeamMembers
