import Mathlib.Data.Int.Notation
import Mathlib.Tactic.Common
import AsterDrive.Errors
import Mathlib.Algebra.Group.Nat.Defs

/-!
# Auth.Flow — the life of an authentication flow

`planTransition` is the rule that every typed flow applies to a derived snapshot: revision, end, expiry, attempt budget,
in this order. The MFA login flow has no revision column, so that its snapshots all have revision 0.
-/

namespace AsterDrive.Auth

inductive AuthFlowKind
  | passwordLogin | passkeyRegistration | passkeyLogin | externalLogin | mfaLogin | registrationActivation
  | invitationAcceptance | passwordReset | emailChange | externalEmailVerification

inductive AuthFlowState
  | firstFactorPending | secondFactorPending | recoveryPending | processing | passwordChangeRequired | authenticated
  | completed | failed | expired | cancelled | consumed
  deriving DecidableEq

def AuthFlowState.isTerminal : AuthFlowState → Bool
  | .authenticated | .completed | .failed | .expired | .cancelled | .consumed => true
  | _ => false

structure AuthFlowSnapshot where
  kind : AuthFlowKind
  state : AuthFlowState
  revision : ℕ
  attemptCount : ℕ
  maxAttempts : Option ℕ
  expiresAt : ℤ

inductive AuthFlowCommand
  | transition (expectedRevision : ℕ) (target : AuthFlowState)
  | recordFailure (expectedRevision : ℕ)
  | cancel (expectedRevision : ℕ)
  | expire (expectedRevision : ℕ)

def AuthFlowCommand.expectedRevision : AuthFlowCommand → ℕ
  | .transition expectedRevision _ => expectedRevision
  | .recordFailure expectedRevision => expectedRevision
  | .cancel expectedRevision => expectedRevision
  | .expire expectedRevision => expectedRevision

inductive AuthFlowTransitionError
  | attemptBudgetExhausted
  | expired
  | illegalTransition (source target : AuthFlowState)
  | revisionConflict (expected actual : ℕ)
  | terminal (state : AuthFlowState)
  deriving DecidableEq

structure AuthFlowTransition where
  state : AuthFlowState
  revision : ℕ
  attemptCount : ℕ

/-- `saturating_add(1)` on `w` bits. -/
def saturatingSucc (w n : ℕ) : ℕ := if n < 2 ^ w - 1 then n + 1 else 2 ^ w - 1

def transitionAllowed (kind : AuthFlowKind) (source target : AuthFlowState) : Bool :=
  if target = .failed then true
  else if target = .consumed then true
  else
    match kind with
    | .passwordLogin =>
      match source, target with
      | .firstFactorPending, .secondFactorPending | .firstFactorPending, .passwordChangeRequired
      | .firstFactorPending, .authenticated | .firstFactorPending, .processing => true
      | .processing, .secondFactorPending => true
      | .secondFactorPending, .passwordChangeRequired | .secondFactorPending, .authenticated => true
      | .passwordChangeRequired, .authenticated => true
      | _, _ => false
    | .passkeyRegistration =>
      match source, target with
      | .firstFactorPending, .processing | .processing, .completed => true
      | _, _ => false
    | .passkeyLogin | .externalLogin =>
      match source, target with
      | .firstFactorPending, .processing | .processing, .secondFactorPending | .processing, .authenticated => true
      | _, _ => false
    | .mfaLogin =>
      match source, target with
      | .secondFactorPending, .passwordChangeRequired | .secondFactorPending, .authenticated => true
      | _, _ => false
    | .registrationActivation | .invitationAcceptance | .passwordReset | .emailChange | .externalEmailVerification =>
      match source, target with
      | .recoveryPending, .processing | .processing, .completed => true
      | _, _ => false

/-- The budget is used up at this count. -/
def AuthFlowSnapshot.exhaustedAt (snapshot : AuthFlowSnapshot) (attemptCount : ℕ) : Bool :=
  snapshot.maxAttempts.any fun maxAttempts => maxAttempts ≤ attemptCount

def planTransition (snapshot : AuthFlowSnapshot) (command : AuthFlowCommand) (now : ℤ) :
    Except AuthFlowTransitionError AuthFlowTransition :=
  if command.expectedRevision ≠ snapshot.revision then
    .error (.revisionConflict command.expectedRevision snapshot.revision)
  else if snapshot.state.isTerminal then .error (.terminal snapshot.state)
  else
    match command with
    | .expire _ => .ok ⟨.expired, saturatingSucc 64 snapshot.revision, snapshot.attemptCount⟩
    | .cancel _ =>
      if snapshot.expiresAt ≤ now then .error .expired
      else .ok ⟨.cancelled, saturatingSucc 64 snapshot.revision, snapshot.attemptCount⟩
    | .recordFailure _ =>
      if snapshot.expiresAt ≤ now then .error .expired
      else .ok ⟨if snapshot.exhaustedAt (saturatingSucc 32 snapshot.attemptCount) then .failed else snapshot.state,
        saturatingSucc 64 snapshot.revision, saturatingSucc 32 snapshot.attemptCount⟩
    | .transition _ target =>
      if snapshot.expiresAt ≤ now then .error .expired
      else if snapshot.exhaustedAt snapshot.attemptCount then .error .attemptBudgetExhausted
      else if !transitionAllowed snapshot.kind snapshot.state target then .error (.illegalTransition snapshot.state target)
      else .ok ⟨target, saturatingSucc 64 snapshot.revision, snapshot.attemptCount⟩

/-! ### The MFA login flow -/

def mfaMaxAttempts : ℕ := 5

/-- A row of `mfa_login_flows`, as far as the transition reads it. -/
structure MfaLoginFlow where
  attemptCount : ℕ
  consumedAt : Option ℤ
  expiresAt : ℤ
  deriving DecidableEq

def mfaFlowSnapshot (flow : MfaLoginFlow) : AuthFlowSnapshot where
  kind := .mfaLogin
  state := if flow.consumedAt.isSome then .consumed else .secondFactorPending
  revision := 0
  attemptCount := flow.attemptCount
  maxAttempts := some mfaMaxAttempts
  expiresAt := flow.expiresAt

def ensureFlowActive (flow : MfaLoginFlow) (now : ℤ) : Except AuthFlowTransitionError Unit :=
  (planTransition (mfaFlowSnapshot flow) (.transition 0 .authenticated) now).map fun _ => ()

theorem ensureFlowActive_ok_iff {flow : MfaLoginFlow} {now : ℤ} : ensureFlowActive flow now = .ok () ↔
      flow.consumedAt = none ∧ now < flow.expiresAt ∧ flow.attemptCount < mfaMaxAttempts := by
  cases hconsumed : flow.consumedAt with
  | some consumedAt =>
    simp [ensureFlowActive, planTransition, mfaFlowSnapshot, AuthFlowCommand.expectedRevision, AuthFlowState.isTerminal,
      hconsumed, Except.map]
  | none =>
    by_cases hexpired : flow.expiresAt ≤ now
    · have hlate : ¬ now < flow.expiresAt := by omega
      simp [ensureFlowActive, planTransition, mfaFlowSnapshot, AuthFlowCommand.expectedRevision,
        AuthFlowState.isTerminal, hconsumed, hexpired, hlate, Except.map]
    · by_cases hspent : mfaMaxAttempts ≤ flow.attemptCount
      · simp [ensureFlowActive, planTransition, mfaFlowSnapshot, AuthFlowCommand.expectedRevision,
          AuthFlowState.isTerminal, AuthFlowSnapshot.exhaustedAt, hconsumed, hexpired, hspent, Except.map]
      · have hlive : now < flow.expiresAt ∧ flow.attemptCount < mfaMaxAttempts := ⟨by omega, by omega⟩
        simp [ensureFlowActive, planTransition, mfaFlowSnapshot, AuthFlowCommand.expectedRevision,
          AuthFlowState.isTerminal, AuthFlowSnapshot.exhaustedAt, transitionAllowed, hconsumed, hexpired, hspent, hlive,
          Except.map]

/-- A failure on an active flow is recorded, and it uses the budget up when it is the last. -/
theorem recordFailure_of_active {flow : MfaLoginFlow} {now : ℤ} (h : ensureFlowActive flow now = .ok ()) :
    planTransition (mfaFlowSnapshot flow) (.recordFailure 0) now =
      .ok ⟨if mfaMaxAttempts ≤ flow.attemptCount + 1 then .failed else .secondFactorPending, 1, flow.attemptCount + 1⟩ := by
  obtain ⟨hconsumed, hlive, hspare⟩ := (ensureFlowActive_ok_iff).mp h
  have hexpired : ¬ flow.expiresAt ≤ now := by omega
  have hsucc : saturatingSucc 32 flow.attemptCount = flow.attemptCount + 1 := by
    unfold mfaMaxAttempts at hspare
    exact if_pos (by omega)
  have hrevision : saturatingSucc 64 0 = 1 := rfl
  simp [planTransition, mfaFlowSnapshot, AuthFlowCommand.expectedRevision, AuthFlowState.isTerminal,
    AuthFlowSnapshot.exhaustedAt, hconsumed, hexpired, hsucc, hrevision]

end AsterDrive.Auth
