import AsterDrive.Auth.Flow
import AsterDrive.Auth.Totp

/-!
# Auth.VerifyChallenge — concurrent second factors on one login flow

`verify_challenge` reads the flow twice, before its transaction and in it. Recovery and email codes are compared before
the transaction, TOTP codes in it. Only then does a statement write to the flow: `consume` after a right code,
`increment_attempts` after a wrong one, each on the row as it then is, while the exhaustion of the budget is decided on
the row as it was read. What the tables of factors and codes answer is part of the action.
-/

namespace AsterDrive.Auth.VerifyChallenge

inductive MfaMethod
  | totp | recoveryCode | emailCode

def emailCodeDigits : ℕ := 8

def looksLikeEmailCode (code : String) : Bool :=
  let trimmed := Remote.BindingRevisions.trim code
  trimmed.utf8ByteSize = emailCodeDigits ∧ trimmed.toList.all Char.isDigit

/-- `recovery_codes::normalize_code_text`, but for the case of its letters. -/
def recoveryCodeText (code : String) : String :=
  String.ofList ((Remote.BindingRevisions.trim code).toList.filter fun c => !Tunnel.isWhitespace c && c ≠ '-')

def looksLikeRecoveryCode (code : String) : Bool :=
  8 ≤ (recoveryCodeText code).utf8ByteSize ∧ (recoveryCodeText code).toList.all Char.isAlphanum

def looksLike (method : MfaMethod) (code : String) : Bool :=
  match method with
  | .totp => Totp.looksLikeCode code
  | .recoveryCode => looksLikeRecoveryCode code
  | .emailCode => looksLikeEmailCode code

structure EmailCode where
  id : ℕ
  codeHash : String
  expiresAt : ℤ

inductive PreparedEmailCode
  | missing
  | expired (recordId : ℕ)
  | current (recordId : ℕ) (codeHash : String) (isValid : Bool)

/-- What other tables answer to the statements of one check. `hit`: the code has a match, or the row it has was
changed by the statement. -/
inductive Answer
  | error
  | totp (matched recorded : Bool)
  | recovery (hit : Bool)
  | email (latest : Option EmailCode) (hit : Bool)

inductive Phase
  | ready
  | clocked (now : ℤ)
  | loaded (now : ℤ)
  | checked
  | began (now : ℤ)
  | opened (now : ℤ) (flow : MfaLoginFlow)
  | accepted (now : ℤ)
  | refused (now : ℤ) (flow : MfaLoginFlow)
  | codeExpired
  | consuming
  | counting
  | succeeded
  | rejected
  | failed
  deriving DecidableEq

def Phase.isOver : Phase → Bool
  | .succeeded | .rejected | .failed => true
  | _ => false

/-- One call. `wrong`: its code was not accepted, when it was compared or before. -/
structure Call where
  method : MfaMethod
  code : String
  phase : Phase := .ready
  preparedRecovery : Bool := false
  preparedEmail : PreparedEmailCode := .missing
  wrong : Bool := false

def Call.live (call : Call) : Bool := !call.phase.isOver

/-- The committed row of the flow, the uncommitted one with the call whose transaction holds it, and how many wrong
codes are counted. -/
structure World where
  clock : ℤ
  row : Option MfaLoginFlow
  writer : Option (ℕ × MfaLoginFlow)
  calls : List Call
  counted : ℕ

def World.setCall (w : World) (i : ℕ) (call : Call) : World := { w with calls := w.calls.set i call }

/-! ### The code -/

/-- What is compared before the transaction: a recovery code, or an email code. `none`: an error. -/
def prepare (call : Call) (now : ℤ) (answer : Answer) : Option Call :=
  match call.method, looksLike call.method call.code, answer with
  | .recoveryCode, true, .recovery hit =>
    some { call with phase := .checked, preparedRecovery := hit, wrong := call.wrong || !hit }
  | .emailCode, true, .email none _ => some { call with phase := .checked }
  | .emailCode, true, .email (some record) hit =>
    if record.expiresAt ≤ now then some { call with phase := .checked, preparedEmail := .expired record.id }
    else
      some { call with
        phase := .checked, preparedEmail := .current record.id record.codeHash hit, wrong := call.wrong || !hit }
  | .totp, _, _ => some { call with phase := .checked }
  | _, false, _ => some { call with phase := .checked }
  | _, true, _ => none

inductive Verification
  | verified (ok : Bool)
  | codeExpired
  | error
  deriving DecidableEq

/-- `apply_email_code_verification` -/
def applyEmailCode (prepared : PreparedEmailCode) (now : ℤ) (latest : Option EmailCode) (hit : Bool) : Verification :=
  match latest with
  | none => .error
  | some record =>
    if record.expiresAt ≤ now then .codeExpired
    else
      match prepared with
      | .missing => .verified false
      | .expired recordId => if record.id = recordId then .codeExpired else .verified false
      | .current recordId codeHash isValid =>
        if record.id = recordId ∧ record.codeHash = codeHash then .verified (isValid && hit) else .verified false

/-- The match on the method, in the transaction. -/
def verify (call : Call) (now : ℤ) (answer : Answer) : Verification :=
  match call.method, looksLike call.method call.code, answer with
  | _, false, _ => .verified false
  | .totp, true, .totp isMatch recorded => .verified (isMatch && recorded)
  | .recoveryCode, true, .recovery hit => .verified (call.preparedRecovery && hit)
  | .emailCode, true, .email latest hit => applyEmailCode call.preparedEmail now latest hit
  | _, true, _ => .error

/-- The flow of the token, if it is active. -/
def loadActiveFlow (w : World) (now : ℤ) : Option MfaLoginFlow :=
  w.row.filter fun flow => ensureFlowActive flow now = .ok ()

/-- `mfa_login_flow_repo::consume`. It waits for another transaction that holds the row. -/
def consume (w : World) (i : ℕ) (call : Call) (now : ℤ) : Option World :=
  if w.writer.isSome then none
  else
    match w.row.filter fun flow => flow.consumedAt = none with
    | none => some (w.setCall i { call with phase := .failed })
    | some flow =>
      some { w.setCall i { call with phase := .consuming } with writer := some (i, { flow with consumedAt := some now }) }

/-- `mfa_login_flow_repo::increment_attempts`. Its result is not looked at. -/
def incrementAttempts (w : World) (i : ℕ) (call : Call) (consumeAt : Option ℤ) : Option World :=
  if w.writer.isSome then none
  else
    match w.row.filter fun flow => flow.consumedAt = none with
    | none => some (w.setCall i { call with phase := .counting })
    | some flow =>
      some { w.setCall i { call with phase := .counting } with
        writer := some (i, { flow with attemptCount := flow.attemptCount + 1, consumedAt := consumeAt }) }

/-- The failure is planned on the flow as it was read. -/
def recordFailure (w : World) (i : ℕ) (call : Call) (now : ℤ) (flow : MfaLoginFlow) : Option World :=
  match planTransition (mfaFlowSnapshot flow) (.recordFailure 0) now with
  | .error _ => some (w.setCall i { call with phase := .failed })
  | .ok transition =>
    if transition.state = .failed then incrementAttempts w i call (some now) else incrementAttempts w i call none

/-- The transaction that holds the row publishes it. -/
def commitFlow (w : World) (i : ℕ) : World :=
  match w.writer with
  | some (j, flow) => if j = i then { w with row := some flow, writer := none } else w
  | none => w

def releaseFlow (w : World) (i : ℕ) : World :=
  match w.writer with
  | some (j, _) => if j = i then { w with writer := none } else w
  | none => w

/-- The call holds the row. -/
def World.holds (w : World) (i : ℕ) : Bool := w.writer.any fun held => held.1 = i

/-! ### The system -/

inductive Action
  | readClock | load
  | prepare (answer : Answer)
  | verify (answer : Answer)
  | update | commit | abort

def act (w : World) (i : ℕ) (call : Call) : Action → Option World
  | .readClock =>
    match call.phase with
    | .ready => some (w.setCall i { call with phase := .clocked w.clock })
    | .checked => some (w.setCall i { call with phase := .began w.clock })
    | _ => none
  | .load =>
    match call.phase with
    | .clocked now =>
      match loadActiveFlow w now with
      | none => some (w.setCall i { call with phase := .failed })
      | some _ => some (w.setCall i { call with phase := .loaded now })
    | .began now =>
      match loadActiveFlow w now with
      | none => some (w.setCall i { call with phase := .failed })
      | some flow => some (w.setCall i { call with phase := .opened now flow })
    | _ => none
  | .prepare answer =>
    match call.phase with
    | .loaded now =>
      match prepare call now answer with
      | none => some (w.setCall i { call with phase := .failed })
      | some call' => some (w.setCall i call')
    | _ => none
  | .verify answer =>
    match call.phase with
    | .opened now flow =>
      match verify call now answer with
      | .verified true => some (w.setCall i { call with phase := .accepted now })
      | .verified false => some (w.setCall i { call with phase := .refused now flow, wrong := true })
      | .codeExpired => some (w.setCall i { call with phase := .codeExpired })
      | .error => some (w.setCall i { call with phase := .failed })
    | _ => none
  | .update =>
    match call.phase with
    | .accepted now => consume w i call now
    | .refused now flow => recordFailure w i call now flow
    | _ => none
  | .commit =>
    match call.phase with
    | .consuming => some ((commitFlow w i).setCall i { call with phase := .succeeded })
    | .counting =>
      some { (commitFlow w i).setCall i { call with phase := .rejected } with
        counted := if w.holds i then w.counted + 1 else w.counted }
    | .codeExpired => some (w.setCall i { call with phase := .rejected })
    | _ => none
  | .abort => if call.live then some ((releaseFlow w i).setCall i { call with phase := .failed }) else none

/-- Flows are deleted with a factor, and by the cleanup. -/
inductive Label
  | tick (seconds : ℕ)
  | start (method : MfaMethod) (code : String)
  | deleteFlow
  | act (i : ℕ) (action : Action)

def step (w : World) : Label → Option World
  | .tick seconds => some { w with clock := w.clock + seconds }
  | .start method code => some { w with calls := w.calls ++ [{ method := method, code := code }] }
  | .deleteFlow => if w.writer.isSome then none else some { w with row := none }
  | .act i action => (w.calls[i]?).bind fun call => act w i call action

def challenges : Lts World Label := ⟨step⟩

def World.successes (w : World) : ℕ := w.calls.countP fun call => call.phase = .succeeded

def World.wrongs (w : World) : ℕ := w.calls.countP Call.wrong

/-- A new flow. -/
structure World.Fresh (w : World) : Prop where
  row : ∃ expiresAt, w.row = some ⟨0, none, expiresAt⟩
  writer : w.writer = none
  calls : w.calls = []
  counted : w.counted = 0

/-! ### Taking turns -/

/-- The flow is consumed, or deleted. -/
def World.over (w : World) : Bool := w.row.all fun flow => flow.consumedAt.isSome

/-- The action finds the code wrong. -/
def Call.findsWrong (call : Call) : Action → Bool
  | .prepare answer =>
    match call.phase with
    | .loaded now => (prepare call now answer).any Call.wrong
    | _ => false
  | .verify answer =>
    match call.phase with
    | .opened now _ => verify call now answer = .verified false
    | _ => false
  | _ => false

/-- The row that the call has read is the row as it is. -/
def Call.readsCurrent (w : World) (call : Call) : Bool :=
  match call.phase with
  | .opened _ flow => w.row.any fun row => row.attemptCount = flow.attemptCount
  | _ => true

/-- The action ends the call, and nothing is counted. -/
def Call.strands (w : World) (call : Call) : Action → Bool
  | .abort => true
  | .load =>
    match call.phase with
    | .began now => (loadActiveFlow w now).isNone
    | _ => false
  | .verify answer =>
    match call.phase with
    | .opened now _ =>
      match verify call now answer with
      | .codeExpired | .error => true
      | .verified _ => false
    | _ => false
  | _ => false

/-- No other call that was found wrong is still running. -/
def World.othersQuiet (w : World) (i : ℕ) : Bool := w.calls.zipIdx.all fun x => x.2 == i || !(x.1.wrong && x.1.live)

/-- Wrong codes take turns: a code is found wrong on a flow that is not over, from the row as it is, when no other
wrong call is running; and as long as the flow is not over, a wrong call ends by being counted. -/
def TakesTurns (w : World) : Label → Prop
  | .act i action =>
    match w.calls[i]? with
    | some call =>
      (call.findsWrong action ∧ call.wrong = false → w.over = false ∧ w.othersQuiet i ∧ call.readsCurrent w) ∧
        (call.wrong ∧ call.strands w action → w.over)
    | none => True
  | _ => True

instance (w : World) (l : Label) : Decidable (TakesTurns w l) := by
  unfold TakesTurns
  split
  · split <;> infer_instance
  · infer_instance

end AsterDrive.Auth.VerifyChallenge
