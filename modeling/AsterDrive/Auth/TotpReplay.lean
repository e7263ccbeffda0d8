import AsterDrive.Lib.Table
import AsterDrive.Auth.Totp

/-!
# Auth.TotpReplay — a time step is used once

Login challenges and sensitive actions run beside each other, one database statement at a time. Each of them finds the
time step of its code, inserts the pair of factor and step into `mfa_totp_used_steps` under a unique index, and deletes
the old records of the factor; what it wrote counts when it commits. The clock is read before the insert, so that the
insert may come late: `Prompt` is the condition that it comes at most two time steps after the reading.
-/

namespace AsterDrive.Auth.TotpReplay

open Totp

/-! ### Rows and operations -/

structure MfaFactor where
  id : ℕ
  userId : ℕ
  secretCiphertext : String
  deriving DecidableEq

/-- A row of `mfa_totp_used_steps`, the columns of its unique index. -/
structure UsedStep where
  factorId : ℕ
  timeStep : ℕ
  deriving DecidableEq

/-- What the code is asked for. An administrator's reset removes the factor without a code. -/
inductive Purpose
  | login | deleteFactor (factorId : ℕ) | regenerateRecoveryCodes | resetUserMfa
  deriving DecidableEq

inductive Phase
  | ready
  | clocked (now : ℤ)
  | prepared
  | located (factor : MfaFactor)
  | matched (used : UsedStep) (now : ℤ)
  | recorded (factorId : ℕ) (now : ℤ)
  | pruned
  | stepsDropped (factorId : ℕ)
  | factorDropped (factorId : ℕ)
  | over
  deriving DecidableEq

/-- An operation with what its transaction has written so far. -/
structure Op where
  purpose : Purpose
  userId : ℕ
  code : String
  phase : Phase := .ready
  inserted : Option UsedStep := none
  prunedRows : List UsedStep := []
  droppedRows : List UsedStep := []

/-- `factors` and `usedSteps` are what is committed, `accepted` the steps that committed operations used. -/
structure World where
  clock : ℤ
  factors : SerialTable MfaFactor.id
  usedSteps : List UsedStep
  ops : List Op
  accepted : List UsedStep

structure Env where
  hmacSha1 : List UInt8 → List UInt8 → Digest
  decryptSecret : String → String → Except AsterError (List UInt8)

def factorAad (userId : ℕ) : String := "mfa_factor:" ++ toString userId ++ ":totp"

def findTotpForUser (factors : SerialTable MfaFactor.id) (userId : ℕ) : Option MfaFactor :=
  factors.rows.find? fun factor => factor.userId = userId

def findByIdForUser (factors : SerialTable MfaFactor.id) (id userId : ℕ) : Option MfaFactor :=
  (factors.get id).filter fun factor => factor.userId = userId

/-- `decrypt_secret` and `verify_code_matching_step`. -/
def matchingStep (env : Env) (factor : MfaFactor) (code : String) (now : ℤ) : Except AsterError (Option ℕ) := do
  let secret ← env.decryptSecret (factorAad factor.userId) factor.secretCiphertext
  verifyCodeMatchingStep env.hmacSha1 secret code now

/-- A code that no step of the window has ends the operation, and so does an error. -/
def verified (env : Env) (factor : MfaFactor) (code : String) (now : ℤ) : Phase :=
  match matchingStep env factor code now with
  | .ok (some step) => .matched ⟨factor.id, step⟩ now
  | .ok none => .over
  | .error _ => .over

/-! ### Statements -/

namespace World

def setOp (w : World) (i : ℕ) (op : Op) : World := { w with ops := w.ops.set i op }

/-- Every other open transaction leaves room. -/
def othersAllow (w : World) (i : ℕ) (leaves : Op → Bool) : Bool :=
  w.ops.zipIdx.all fun x => x.2 == i || x.1.phase == .over || leaves x.1

end World

/-- The row is neither inserted nor deleted by this transaction, and its factor is not deleted. -/
def Op.leavesKey (used : UsedStep) (op : Op) : Bool :=
  op.inserted ≠ some used ∧ used ∉ op.prunedRows ∧ used ∉ op.droppedRows ∧ op.phase ≠ .factorDropped used.factorId

def Op.leavesRows (rows : List UsedStep) (op : Op) : Bool := rows.all fun r => r ∉ op.prunedRows ∧ r ∉ op.droppedRows

/-- No reference to the factor is held, and its row is not deleted. -/
def Op.leavesFactor (factorId : ℕ) (op : Op) : Bool :=
  op.inserted.map UsedStep.factorId ≠ some factorId ∧ op.phase ≠ .factorDropped factorId

/-- `prepare_sensitive_mfa_code`, before the transaction. The path of a recovery code uses no time step. -/
def prepare (env : Env) (w : World) (i : ℕ) (op : Op) : World :=
  match findTotpForUser w.factors op.userId with
  | none => w.setOp i { op with phase := .over }
  | some factor =>
    match matchingStep env factor op.code w.clock with
    | .ok (some _) => w.setOp i { op with phase := .prepared }
    | .ok none => w.setOp i { op with phase := .over }
    | .error _ => w.setOp i { op with phase := .over }

/-- `record_used_step`. It waits for the transactions that hold the key or the factor. -/
def record (w : World) (i : ℕ) (op : Op) (used : UsedStep) (now : ℤ) : Option World :=
  if !w.othersAllow i (Op.leavesKey used) then none
  else if (w.factors.get used.factorId).isNone then some (w.setOp i { op with phase := .over })
  else if used ∈ w.usedSteps then some (w.setOp i { op with phase := .over })
  else some (w.setOp i { op with phase := .recorded used.factorId now, inserted := some used })

/-- `delete_steps_before` -/
def prune (w : World) (i : ℕ) (op : Op) (factorId : ℕ) (now : ℤ) : Option World :=
  let rows := (w.usedSteps ++ op.inserted.toList).filter fun r =>
    r.factorId = factorId ∧ (r.timeStep : ℤ) < replayGuardMinStep now
  if !w.othersAllow i (Op.leavesRows rows) then none
  else some (w.setOp i { op with phase := .pruned, prunedRows := rows })

/-- `delete_all_for_factor` -/
def dropSteps (w : World) (i : ℕ) (op : Op) (factorId : ℕ) : Option World :=
  let rows := (w.usedSteps ++ op.inserted.toList).filter fun r => r.factorId = factorId
  if !w.othersAllow i (Op.leavesRows rows) then none
  else some (w.setOp i { op with phase := .stepsDropped factorId, droppedRows := rows })

/-- `mfa_factor_repo::delete_for_user` -/
def dropFactor (w : World) (i : ℕ) (op : Op) (factorId : ℕ) : Option World :=
  if !w.othersAllow i (Op.leavesFactor factorId) then none
  else some (w.setOp i { op with phase := .factorDropped factorId })

/-- What the transaction inserted is there, what it deleted is not. -/
def commitRows (w : World) (i : ℕ) (op : Op) : World :=
  { w.setOp i { op with phase := .over } with
    usedSteps := (w.usedSteps ++ op.inserted.toList).filter fun r => r ∉ op.prunedRows ∧ r ∉ op.droppedRows
    accepted := w.accepted ++ op.inserted.toList }

/-- The factor goes with every record that refers to it. -/
def removeFactor (w : World) (factorId : ℕ) : World :=
  { w with
    factors := w.factors.deleteRows fun factor => factor.id = factorId
    usedSteps := w.usedSteps.filter fun r => r.factorId ≠ factorId }

/-! ### The system -/

inductive Action
  | prepare | readClock | findFactor | record | prune | dropSteps | dropFactor | commit | rollback

/-- Which factor the operation removes. -/
def removalTarget (w : World) (op : Op) : Option ℕ :=
  match op.purpose, op.phase with
  | .deleteFactor factorId, .pruned => (findByIdForUser w.factors factorId op.userId).map MfaFactor.id
  | .resetUserMfa, .ready => (findTotpForUser w.factors op.userId).map MfaFactor.id
  | _, _ => none

/-- A login reads the clock and then the factor, a sensitive action the factor and then the clock. -/
def act (env : Env) (w : World) (i : ℕ) (op : Op) : Action → Option World
  | .prepare =>
    match op.purpose, op.phase with
    | .deleteFactor _, .ready => some (prepare env w i op)
    | .regenerateRecoveryCodes, .ready => some (prepare env w i op)
    | _, _ => none
  | .readClock =>
    match op.purpose, op.phase with
    | .login, .ready => some (w.setOp i { op with phase := .clocked w.clock })
    | _, .located factor => some (w.setOp i { op with phase := verified env factor op.code w.clock })
    | _, _ => none
  | .findFactor =>
    match op.phase with
    | .clocked now =>
      match findTotpForUser w.factors op.userId with
      | none => some (w.setOp i { op with phase := .over })
      | some factor => some (w.setOp i { op with phase := verified env factor op.code now })
    | .prepared =>
      match findTotpForUser w.factors op.userId with
      | none => some (w.setOp i { op with phase := .over })
      | some factor => some (w.setOp i { op with phase := .located factor })
    | _ => none
  | .record =>
    match op.phase with
    | .matched used now => record w i op used now
    | _ => none
  | .prune =>
    match op.phase with
    | .recorded factorId now => prune w i op factorId now
    | _ => none
  | .dropSteps => (removalTarget w op).bind (dropSteps w i op)
  | .dropFactor =>
    match op.phase with
    | .stepsDropped factorId => dropFactor w i op factorId
    | _ => none
  | .commit =>
    match op.purpose, op.phase with
    | .login, .pruned => some (commitRows w i op)
    | .regenerateRecoveryCodes, .pruned => some (commitRows w i op)
    | _, .factorDropped factorId => some (removeFactor (commitRows w i op) factorId)
    | _, _ => none
  | .rollback =>
    match op.phase with
    | .over => none
    | _ => some (w.setOp i { op with phase := .over })

inductive Label
  | tick (seconds : ℕ)
  | enable (userId : ℕ) (secretCiphertext : String)
  | start (purpose : Purpose) (userId : ℕ) (code : String)
  | act (i : ℕ) (action : Action)

/-- `enable` is the end of a TOTP setup; a user has one factor at most. -/
def step (env : Env) (w : World) : Label → Option World
  | .tick seconds => some { w with clock := w.clock + seconds }
  | .enable userId secretCiphertext =>
    if (findTotpForUser w.factors userId).isSome then none
    else some { w with factors := w.factors.insert (fun id => ⟨id, userId, secretCiphertext⟩) fun _ => rfl }
  | .start purpose userId code => some { w with ops := w.ops ++ [⟨purpose, userId, code, .ready, none, [], []⟩] }
  | .act i action => (w.ops[i]?).bind fun op => act env w i op action

def replays (env : Env) : Lts World Label := ⟨step env⟩

/-- When the clock was read that the code was matched against. -/
def Op.readAt (op : Op) : Option ℤ :=
  match op.phase with
  | .matched _ now => some now
  | _ => none

/-- A step is recorded at most two time steps after the clock was read. -/
def Prompt (w : World) : Label → Prop
  | .act i .record =>
    match (w.ops[i]?).bind Op.readAt with
    | some now => w.clock / totpStepSecs ≤ now / totpStepSecs + 2
    | none => True
  | _ => True

instance (w : World) (l : Label) : Decidable (Prompt w l) := by
  unfold Prompt
  split
  · split <;> infer_instance
  · infer_instance

/-- Nothing is running, and no operation has been counted. -/
structure World.Idle (w : World) : Prop where
  ops : w.ops = []
  accepted : w.accepted = []

end AsterDrive.Auth.TotpReplay
