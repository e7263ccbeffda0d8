import Mathlib.Data.Int.Notation
import AsterDrive.Remote.BindingRevisions
import Mathlib.Algebra.Group.Nat.Defs

/-!
# Auth.Totp — one-time codes and the window they are accepted in

A code belongs to a time step of 30 s. `verifyCodeMatchingStep` accepts the codes of the step of the clock and of the
two steps beside it, and names the step it accepted. `replayGuardMinStep` is the bound below which the records of used
steps are deleted. HMAC-SHA1 is a parameter: nothing below depends on which codes it makes.
-/

namespace AsterDrive.Auth.Totp

open AsterError

def totpStepSecs : ℕ := 30
def totpDigits : ℕ := 6
def totpWindowSteps : ℕ := 1

/-- The 20 bytes of an HMAC-SHA1. -/
abbrev Digest := Fin 20 → UInt8

/-- `u64::to_be_bytes` -/
def toBeBytes (n : ℕ) : List UInt8 := (List.range 8).map fun i => UInt8.ofNat (n / 256 ^ (7 - i))

/-- Where the digest is read, from the low half of its last byte. -/
def truncationOffset (digest : Digest) : Fin 16 := ⟨(digest 19).toNat % 16, Nat.mod_lt _ (by omega)⟩

/-- The byte `i` places after the offset. -/
def byteAt (digest : Digest) (i : Fin 4) : ℕ := (digest ⟨truncationOffset digest + i, by omega⟩).toNat

def totpCode (hmacSha1 : List UInt8 → List UInt8 → Digest) (secret : List UInt8) (step : ℕ) : String :=
  let digest := hmacSha1 secret (toBeBytes step)
  let binary := ((byteAt digest 0 &&& 0x7f) <<< 24) ||| (byteAt digest 1 <<< 16) ||| (byteAt digest 2 <<< 8) |||
    byteAt digest 3
  String.ofList ((Nat.toDigits 10 (binary % 10 ^ totpDigits)).leftpad totpDigits '0')

/-- A code as it is typed: trimmed, its blanks removed. -/
def squeeze (code : String) : String := String.ofList ((Remote.BindingRevisions.trim code).toList.filter (· ≠ ' '))

def looksLikeCode (code : String) : Bool :=
  (squeeze code).utf8ByteSize = totpDigits ∧ (squeeze code).toList.all Char.isDigit

def normalizeCode (code : String) : Except AsterError String :=
  if !looksLikeCode (squeeze code) then .error (validationError { message := "TOTP code must be a 6 digit number" })
  else .ok (squeeze code)

/-- `i64_to_u64` of a timestamp. -/
def timestampToU64 (now : ℤ) : Except AsterError ℕ :=
  if 0 ≤ now then .ok now.toNat else .error (internalError { message := "totp timestamp out of range" })

/-- The offsets `-TOTP_WINDOW_STEPS..=TOTP_WINDOW_STEPS`. -/
def windowOffsets : List ℤ := (List.range (2 * totpWindowSteps + 1)).map fun i : ℕ => (i : ℤ) - totpWindowSteps

/-- The step at an offset from the current one, saturating at zero. -/
def stepAt (currentStep : ℕ) (offset : ℤ) : ℕ :=
  if offset < 0 then currentStep - offset.natAbs else currentStep + offset.natAbs

/-- The first step of the window whose code this is. -/
def verifyCodeMatchingStep (hmacSha1 : List UInt8 → List UInt8 → Digest) (secret : List UInt8) (code : String) (now : ℤ) :
    Except AsterError (Option ℕ) := do
  let normalized ← normalizeCode code
  let timestamp ← timestampToU64 now
  return (windowOffsets.map (stepAt (timestamp / totpStepSecs))).find? fun step =>
    totpCode hmacSha1 secret step = normalized

/-- The first step whose record is kept. `i64` division rounds towards zero. -/
def replayGuardMinStep (now : ℤ) : ℤ := now.tdiv totpStepSecs - totpWindowSteps - 2

/-! ### The window and the bound -/

theorem stepAt_near {currentStep : ℕ} {offset : ℤ} (h : offset ∈ windowOffsets) :
    currentStep ≤ stepAt currentStep offset + 1 ∧ stepAt currentStep offset ≤ currentStep + 1 := by
  have hcases : offset = -1 ∨ offset = 0 ∨ offset = 1 := by
    simpa [windowOffsets, totpWindowSteps, List.range_succ, eq_comm] using h
  rcases hcases with rfl | rfl | rfl <;> simp [stepAt] <;> omega

theorem accepted_near {hmacSha1 : List UInt8 → List UInt8 → Digest} {secret : List UInt8} {code : String} {now : ℤ}
    {step : ℕ} (h : verifyCodeMatchingStep hmacSha1 secret code now = .ok (some step)) :
    0 ≤ now ∧ now / 30 ≤ step + 1 ∧ (step : ℤ) ≤ now / 30 + 1 := by
  unfold verifyCodeMatchingStep at h
  cases hnormalized : normalizeCode code with
  | error e => simp [hnormalized, bind, Except.bind] at h
  | ok normalized =>
    cases htimestamp : timestampToU64 now with
    | error e => simp [hnormalized, htimestamp, bind, Except.bind] at h
    | ok timestamp =>
      simp only [hnormalized, htimestamp, bind, Except.bind, pure, Except.pure, Except.ok.injEq] at h
      have hnow : 0 ≤ now ∧ now.toNat = timestamp := by
        unfold timestampToU64 at htimestamp
        split_ifs at htimestamp with hpos
        exact ⟨hpos, Except.ok.inj htimestamp⟩
      obtain ⟨offset, hoffset, rfl⟩ := List.mem_map.mp (List.mem_of_find?_eq_some h)
      obtain ⟨hlow, hhigh⟩ := @stepAt_near (timestamp / totpStepSecs) offset hoffset
      have hcurrent : now / 30 = (timestamp / totpStepSecs : ℕ) := by
        simp only [totpStepSecs]
        omega
      refine ⟨hnow.1, ?_, ?_⟩ <;> omega

theorem replayGuardMinStep_eq {now : ℤ} (h : 0 ≤ now) : replayGuardMinStep now = now / 30 - 3 := by
  show now.tdiv 30 - 1 - 2 = now / 30 - 3
  rw [Int.tdiv_eq_ediv_of_nonneg h]
  omega

end AsterDrive.Auth.Totp
