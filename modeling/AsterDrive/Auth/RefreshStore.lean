import Mathlib.Data.Int.Notation
import AsterDrive.Errors
import AsterDrive.Lib.Lts
import AsterDrive.Lib.Table

/-!
# Auth.RefreshStore — refresh tokens and their sessions

The transactions of `DriveRefreshStore` and what else writes sessions. A rotation has the row of its account from its
decision to its end; logouts and revocations do not ask for it. Instants are in nanoseconds, what a token says in seconds.
-/

namespace AsterDrive.Auth.Refresh

open AsterError

/-! ### Rows -/

structure User where
  id : ℕ
  isActive : Bool
  sessionVersion : ℤ
  mustChangePassword : Bool

structure ClientContext where
  ipAddress : Option String
  userAgent : Option String
  deriving DecidableEq

structure AuthSession where
  id : String
  userId : ℕ
  currentRefreshJti : String
  previousRefreshJti : Option String
  refreshExpiresAt : ℤ
  client : ClientContext
  createdAt : ℤ
  lastSeenAt : ℤ
  revokedAt : Option ℤ

/-- The record of a detected reuse. -/
structure AuditLog where
  userId : ℕ
  sessionId : String
  client : ClientContext
  createdAt : ℤ

structure Db where
  users : SerialTable User.id
  sessions : Table AuthSession.id
  auditLogs : List AuditLog

/-! ### Tokens and requests -/

inductive Restriction
  | none | mustChangePassword
  deriving DecidableEq

/-- What a refresh token says. -/
structure Token where
  userId : ℕ
  sessionId : String
  sessionVersion : ℕ
  refreshJti : String
  restriction : Restriction
  deriving DecidableEq

structure RefreshRotationRequest where
  userId : ℕ
  sessionId : String
  sessionVersion : ℕ
  currentRefreshJti : String
  nextRefreshJti : String
  nextRefreshExpiresAt : ℤ
  restriction : Restriction
  client : ClientContext
  now : ℤ

namespace RefreshRotationRequest

/-- The token that is presented. -/
def token (request : RefreshRotationRequest) : Token :=
  ⟨request.userId, request.sessionId, request.sessionVersion, request.currentRefreshJti, request.restriction⟩

/-- The token that is handed out after a rotation. -/
def successor (request : RefreshRotationRequest) : Token :=
  ⟨request.userId, request.sessionId, request.sessionVersion, request.nextRefreshJti, .none⟩

end RefreshRotationRequest

inductive RefreshRejection
  | unavailable | expired | accountDisabled | restricted | stale | reuseDetected
  deriving DecidableEq

inductive RefreshDecision
  | rotate
  | reject (reason : RefreshRejection)

inductive RefreshStoreOutcome
  | rotated
  | rejected (reason : RefreshRejection)

/-- What the classification sees of a session. -/
structure RefreshSession where
  userId : ℕ
  sessionId : String
  currentRefreshJti : String
  previousRefreshJti : Option String
  lastSeenAt : ℤ
  refreshExpiresAt : ℤ
  revoked : Bool
  client : ClientContext

/-! ### Repositories -/

def nanos : ℤ := 1000000000

/-- `DateTime::timestamp` -/
def toSeconds (instant : ℤ) : ℤ := instant / nanos

/-- `DateTime::from_timestamp` has an instant for these seconds. -/
def timestamp (seconds : ℤ) : Except AsterError ℤ :=
  if -8334601228800 ≤ seconds ∧ seconds ≤ 8210266876799 then .ok (seconds * nanos)
  else .error (internalError { message := "invalid authentication timestamp" })

def sessionSnapshot (session : AuthSession) : RefreshSession :=
  ⟨session.userId, session.id, session.currentRefreshJti, session.previousRefreshJti, toSeconds session.lastSeenAt,
    toSeconds session.refreshExpiresAt, session.revokedAt.isSome, session.client⟩

/-- `u64::try_from(..).ok()` -/
def toU64 (value : ℤ) : Option ℕ := if 0 ≤ value then some value.toNat else none

def findByIdForUser (db : Db) (userId : ℕ) (id : String) : Option AuthSession :=
  db.sessions.rows.find? fun session => session.userId = userId ∧ session.id = id

def bumpSessionVersion (db : Db) (id : ℕ) : Except AsterError Db :=
  match db.users.get id with
  | none => .error (recordNotFound { message := "user #" ++ toString id })
  | some user =>
    if 0 ≤ user.sessionVersion ∧ user.sessionVersion < 2 ^ 63 - 1 then
      .ok { db with
        users := db.users.updateRows (fun user => user.id = id)
          (fun user => { user with sessionVersion := user.sessionVersion + 1 }) fun _ => rfl }
    else .error (internalError { message := "session version exhausted or invalid" })

def deleteAllForUser (db : Db) (userId : ℕ) : Db :=
  { db with sessions := db.sessions.deleteWhere fun session => session.userId = userId }

structure RefreshRotation where
  userId : ℕ
  sessionId : String
  currentRefreshJti : String
  nextRefreshJti : String
  refreshExpiresAt : ℤ
  client : ClientContext
  lastSeenAt : ℤ

namespace RefreshRotation

/-- The filter of the update. -/
def fences (rotation : RefreshRotation) (session : AuthSession) : Bool :=
  session.id = rotation.sessionId ∧ session.userId = rotation.userId ∧
    session.currentRefreshJti = rotation.currentRefreshJti ∧ session.revokedAt = none ∧
    rotation.lastSeenAt < session.refreshExpiresAt

/-- The columns of the update; what the client does not say stays. -/
def columns (rotation : RefreshRotation) (session : AuthSession) : AuthSession :=
  { session with
    currentRefreshJti := rotation.nextRefreshJti
    previousRefreshJti := some rotation.currentRefreshJti
    refreshExpiresAt := rotation.refreshExpiresAt
    lastSeenAt := if session.lastSeenAt > rotation.lastSeenAt then session.lastSeenAt else rotation.lastSeenAt
    client :=
      ⟨rotation.client.ipAddress.or session.client.ipAddress, rotation.client.userAgent.or session.client.userAgent⟩ }

end RefreshRotation

/-- Whether a row was updated; the index of the current identities is unique. -/
def rotateRefreshFenced (db : Db) (rotation : RefreshRotation) : Except AsterError (Bool × Db) :=
  if (db.sessions.rows.any rotation.fences) && (db.sessions.rows.any fun session =>
        !rotation.fences session && decide (session.currentRefreshJti = rotation.nextRefreshJti)) then
    .error (databaseOperation { message := "UNIQUE constraint failed: auth_sessions.current_refresh_jti" })
  else
    .ok (db.sessions.rows.any rotation.fences,
      { db with sessions := db.sessions.updateWhere rotation.fences rotation.columns fun _ => rfl })

/-- Revokes the sessions that meet the filter and are not revoked. -/
def revokeWhere (db : Db) (p : AuthSession → Bool) (revokedAt : ℤ) : Db :=
  { db with
    sessions := db.sessions.updateWhere (fun session => p session && session.revokedAt.isNone)
      (fun session => { session with revokedAt := some revokedAt }) fun _ => rfl }

def revokeByRefreshJti (db : Db) (refreshJti : String) (revokedAt : ℤ) : Db :=
  revokeWhere db (fun session => session.currentRefreshJti = refreshJti) revokedAt

def revokeByIdForUser (db : Db) (userId : ℕ) (id : String) (revokedAt : ℤ) : Db :=
  revokeWhere db (fun session => session.userId = userId ∧ session.id = id) revokedAt

def revokeAllForUserExceptId (db : Db) (userId : ℕ) (keepId : String) (revokedAt : ℤ) : Db :=
  revokeWhere db (fun session => session.userId = userId ∧ session.id ≠ keepId) revokedAt

def deleteExpired (db : Db) (now : ℤ) : Db :=
  { db with sessions := db.sessions.deleteWhere fun session => session.refreshExpiresAt < now }

/-! ### The store -/

/-- `classify_refresh` -/
abbrev Classify := RefreshRotationRequest → Option RefreshSession → RefreshDecision

def passwordChangeRequiredForLogin (passwordLoginEnabled : Bool) (user : User) : Bool :=
  passwordLoginEnabled && user.mustChangePassword

namespace DriveRefreshStore

/-- `clock` is the time after the wait for the account. -/
def decide (classify : Classify) (passwordLoginEnabled : Bool) (db : Db) (request : RefreshRotationRequest) (clock : ℤ) :
    RefreshDecision :=
  match db.users.get request.userId with
  | none => .reject .unavailable
  | some user =>
    if !user.isActive then .reject .accountDisabled
    else if toU64 user.sessionVersion ≠ some request.sessionVersion then .reject .unavailable
    else if passwordChangeRequiredForLogin passwordLoginEnabled user ∨ request.restriction ≠ .none then
      .reject .restricted
    else
      classify { request with now := max request.now clock }
        ((findByIdForUser db request.userId request.sessionId).map sessionSnapshot)

/-- A confirmed reuse invalidates the account. -/
def reject (db : Db) (request : RefreshRotationRequest) (reason : RefreshRejection) : Except AsterError Db :=
  if reason = .reuseDetected then
    match bumpSessionVersion db request.userId with
    | .error e => .error e
    | .ok bumped =>
      match timestamp request.now with
      | .error e => .error e
      | .ok createdAt =>
        .ok { deleteAllForUser bumped request.userId with
          auditLogs := ⟨request.userId, request.sessionId, request.client, createdAt⟩ :: db.auditLogs }
  else .ok db

end DriveRefreshStore

/-! ### Calls -/

structure LoginRequest where
  userId : ℕ
  sessionId : String
  refreshJti : String
  refreshExpiresAt : ℤ
  client : ClientContext

inductive Request
  | refresh (request : RefreshRotationRequest)
  | login (request : LoginRequest)

inductive Phase
  | ready | rotating | conflict | userRead | loggedIn
  | over (outcome : RefreshStoreOutcome)
  | failed (error : AsterError)

structure Call where
  request : Request
  phase : Phase := .ready
  user : Option User := none

/-- What became of the identities of refresh tokens. -/
inductive Event
  | created (sessionId refreshJti : String)
  | exchanged (token : Token) (nextRefreshJti : String)

/-- What is committed; the tokens handed out; what happened to identities, the newest first. -/
structure World where
  db : Db
  passwordLoginEnabled : Bool
  calls : List Call
  issued : List Token
  history : List Event

def World.setCall (w : World) (i : ℕ) (call : Call) : World := { w with calls := w.calls.set i call }

/-- The call has the row of the account. -/
def Call.locks (call : Call) (userId : ℕ) : Bool :=
  match call.request, call.phase with
  | .refresh request, .rotating => decide (request.userId = userId)
  | _, _ => false

def World.accountFree (w : World) (userId : ℕ) : Bool := w.calls.all fun call => !call.locks userId

/-! ### Statements -/

/-- The transaction ends with a rejection. -/
def commitRejection (w : World) (i : ℕ) (call : Call) (request : RefreshRotationRequest) (reason : RefreshRejection) :
    World :=
  match DriveRefreshStore.reject w.db request reason with
  | .error e => w.setCall i { call with phase := .failed e }
  | .ok db => { w.setCall i { call with phase := .over (.rejected reason) } with db := db }

/-- The first half of `rotate_refresh`. -/
def beginRotation (classify : Classify) (w : World) (i : ℕ) (call : Call) (request : RefreshRotationRequest)
    (clock : ℤ) : Option World :=
  if !w.accountFree request.userId then none
  else
    match DriveRefreshStore.decide classify w.passwordLoginEnabled w.db request clock with
    | .reject reason => some (commitRejection w i call request reason)
    | .rotate => some (w.setCall i { call with phase := .rotating })

/-- The second half. -/
def commitRotation (w : World) (i : ℕ) (call : Call) (request : RefreshRotationRequest) : World :=
  match timestamp request.nextRefreshExpiresAt, timestamp request.now with
  | .ok refreshExpiresAt, .ok lastSeenAt =>
    match rotateRefreshFenced w.db
        ⟨request.userId, request.sessionId, request.currentRefreshJti, request.nextRefreshJti, refreshExpiresAt,
          request.client, lastSeenAt⟩ with
    | .error e => w.setCall i { call with phase := .failed e }
    | .ok (false, _) => w.setCall i { call with phase := .conflict }
    | .ok (true, db) =>
      { w.setCall i { call with phase := .over .rotated } with
        db := db
        issued := request.successor :: w.issued
        history := .exchanged request.token request.nextRefreshJti :: w.history }
  | .error e, _ => w.setCall i { call with phase := .failed e }
  | _, .error e => w.setCall i { call with phase := .failed e }

def resolveConflict (classify : Classify) (w : World) (i : ℕ) (call : Call) (request : RefreshRotationRequest)
    (clock : ℤ) : Option World :=
  if !w.accountFree request.userId then none
  else
    match DriveRefreshStore.decide classify w.passwordLoginEnabled w.db request clock with
    | .reject reason => some (commitRejection w i call request reason)
    | .rotate =>
      some (w.setCall i { call with
        phase := .failed (databaseOperation { message := "unresolved refresh rotation conflict" }) })

/-- The account as a login reads it. -/
def readUser (w : World) (i : ℕ) (call : Call) (request : LoginRequest) : World :=
  match w.db.users.get request.userId with
  | none =>
    w.setCall i { call with phase := .failed (recordNotFound { message := "user #" ++ toString request.userId }) }
  | some user => w.setCall i { call with phase := .userRead, user := some user }

/-- `persist_auth_session`, then the tokens are handed out. -/
def persistAuthSession (w : World) (i : ℕ) (call : Call) (request : LoginRequest) (user : User) (now : ℤ) : World :=
  match toU64 user.sessionVersion with
  | none => w.setCall i { call with phase := .failed (internalError { message := "invalid session version" }) }
  | some sessionVersion =>
    if (w.db.users.get user.id).isNone then
      w.setCall i { call with phase := .failed (databaseOperation { message := "foreign key constraint failed" }) }
    else if w.db.sessions.rows.any fun session => session.currentRefreshJti = request.refreshJti then
      w.setCall i { call with
        phase := .failed
          (databaseOperation { message := "UNIQUE constraint failed: auth_sessions.current_refresh_jti" }) }
    else
      match w.db.sessions.insertNew ⟨request.sessionId, user.id, request.refreshJti, none, request.refreshExpiresAt,
          request.client, now, now, none⟩ with
      | none =>
        w.setCall i { call with
          phase := .failed (databaseOperation { message := "UNIQUE constraint failed: auth_sessions.id" }) }
      | some sessions =>
        { w.setCall i { call with phase := .loggedIn } with
          db := { w.db with sessions := sessions }
          issued := ⟨user.id, request.sessionId, sessionVersion, request.refreshJti,
              if passwordChangeRequiredForLogin w.passwordLoginEnabled user then .mustChangePassword else .none⟩ ::
            w.issued
          history := .created request.sessionId request.refreshJti :: w.history }

def next (classify : Classify) (w : World) (i : ℕ) (call : Call) (clock : ℤ) : Option World :=
  match call.request, call.phase with
  | .refresh request, .ready => beginRotation classify w i call request clock
  | .refresh request, .rotating => some (commitRotation w i call request)
  | .refresh request, .conflict => resolveConflict classify w i call request clock
  | .login request, .ready => some (readUser w i call request)
  | .login request, .userRead => call.user.map fun user => persistAuthSession w i call request user clock
  | _, _ => none

/-! ### The system -/

/-- `invalidate` is every transaction that bumps the version of an account and deletes its sessions: a new password, a
change of the status, of MFA or by an administrator. -/
inductive Label
  | start (request : Request)
  | next (i : ℕ) (clock : ℤ)
  | abort (i : ℕ)
  | createUser (mustChangePassword : Bool)
  | deleteUser (id : ℕ)
  | invalidate (id : ℕ) (isActive mustChangePassword : Bool)
  | logout (refreshJti : String) (now : ℤ)
  | revoke (userId : ℕ) (sessionId : String) (now : ℤ)
  | revokeOthers (userId : ℕ) (currentRefreshJti : String) (now : ℤ)
  | cleanup (now : ℤ)
  | configure (passwordLoginEnabled : Bool)

def Phase.isOpen : Phase → Bool
  | .ready | .rotating | .conflict | .userRead => true
  | .loggedIn | .over _ | .failed _ => false

/-- A token that nobody issued does not get to the store. -/
def World.admits (w : World) : Request → Bool
  | .refresh request => request.token ∈ w.issued
  | .login _ => true

def invalidateUser (w : World) (id : ℕ) (isActive mustChangePassword : Bool) : Option World :=
  if !w.accountFree id then none
  else
    match bumpSessionVersion w.db id with
    | .error _ => none
    | .ok db =>
      some { w with
        db := { deleteAllForUser db id with
          users := db.users.updateRows (fun user => user.id = id)
            (fun user => { user with isActive := isActive, mustChangePassword := mustChangePassword }) fun _ => rfl } }

/-- The sessions of a user go with it. -/
def deleteUserRow (w : World) (id : ℕ) : Option World :=
  if !w.accountFree id then none
  else some { w with db := { deleteAllForUser w.db id with users := w.db.users.deleteRows fun user => user.id = id } }

def revokeOtherAuthSessions (w : World) (userId : ℕ) (currentRefreshJti : String) (now : ℤ) : Option World :=
  match w.db.sessions.rows.find? fun session => session.currentRefreshJti = currentRefreshJti with
  | none => none
  | some session =>
    if session.userId ≠ userId ∨ session.revokedAt.isSome then none
    else some { w with db := revokeAllForUserExceptId w.db userId session.id now }

def step (classify : Classify) (w : World) : Label → Option World
  | .start request => if w.admits request then some { w with calls := w.calls ++ [{ request := request }] } else none
  | .next i clock => (w.calls[i]?).bind fun call => next classify w i call clock
  | .abort i =>
    match w.calls[i]? with
    | none => none
    | some call =>
      if call.phase.isOpen then
        some (w.setCall i { call with phase := .failed (databaseOperation { message := "rolled back" }) })
      else none
  | .createUser mustChangePassword =>
    some { w with
      db := { w.db with users := w.db.users.insert (fun id => ⟨id, true, 1, mustChangePassword⟩) fun _ => rfl } }
  | .deleteUser id => deleteUserRow w id
  | .invalidate id isActive mustChangePassword => invalidateUser w id isActive mustChangePassword
  | .logout refreshJti now => some { w with db := revokeByRefreshJti w.db refreshJti now }
  | .revoke userId sessionId now => some { w with db := revokeByIdForUser w.db userId sessionId now }
  | .revokeOthers userId currentRefreshJti now => revokeOtherAuthSessions w userId currentRefreshJti now
  | .cleanup now => some { w with db := deleteExpired w.db now }
  | .configure passwordLoginEnabled => some { w with passwordLoginEnabled := passwordLoginEnabled }

def refreshing (classify : Classify) : Lts World Label := ⟨step classify⟩

/-! ### Chains -/

/-- The identities that were put in service. -/
def jtis : List Event → List String
  | [] => []
  | .created _ refreshJti :: history => refreshJti :: jtis history
  | .exchanged _ nextRefreshJti :: history => nextRefreshJti :: jtis history

/-- The identities that were exchanged. -/
def presented : List Event → List String
  | [] => []
  | .created _ _ :: history => presented history
  | .exchanged token _ :: history => token.refreshJti :: presented history

def sessionIds : List Event → List String
  | [] => []
  | .created sessionId _ :: history => sessionId :: sessionIds history
  | .exchanged _ _ :: history => sessionIds history

/-- The identities of a session, the newest first. -/
def chain (sessionId : String) : List Event → List String
  | [] => []
  | .created sessionId' refreshJti :: history =>
    if sessionId' = sessionId then refreshJti :: chain sessionId history else chain sessionId history
  | .exchanged token nextRefreshJti :: history =>
    if token.sessionId = sessionId then nextRefreshJti :: chain sessionId history else chain sessionId history

/-- A session is created once, and what is exchanged is the newest identity of its session. -/
def Linked : List Event → Prop
  | [] => True
  | .created sessionId _ :: history => chain sessionId history = [] ∧ Linked history
  | .exchanged token _ :: history => (chain token.sessionId history).head? = some token.refreshJti ∧ Linked history

/-- New identities are new: those of a rotation, and those of a login. -/
def NewIdentities (w : World) : Label → Prop
  | .next i _ =>
    match w.calls[i]? with
    | some ⟨.refresh request, .rotating, _⟩ => request.nextRefreshJti ∉ jtis w.history
    | some ⟨.login request, .userRead, _⟩ =>
      request.refreshJti ∉ jtis w.history ∧ request.sessionId ∉ sessionIds w.history
    | _ => True
  | _ => True

instance (w : World) (l : Label) : Decidable (NewIdentities w l) := by
  unfold NewIdentities
  split
  · split <;> infer_instance
  · infer_instance

/-- No one has logged in yet. -/
structure World.Initial (w : World) : Prop where
  sessions : w.db.sessions.rows = []
  calls : w.calls = []
  issued : w.issued = []
  history : w.history = []

end AsterDrive.Auth.Refresh
