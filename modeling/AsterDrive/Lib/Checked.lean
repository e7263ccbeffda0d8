import Mathlib.Data.Int.Notation
import AsterDrive.Lib.Result
import Mathlib.Algebra.Group.Int.Defs

/-!
# Checked — integer operations that may leave their range

A computation either gives a value, rejects its input, or overflows. `signed w x` is the result `x` of an operation on
integers of `w + 1` bits, `demand p e` a check. `bind_sound` is the rule for a computation that does not overflow.
-/

namespace AsterDrive.Checked

inductive Failure (ε : Type)
  | overflow
  | rejected (error : ε)
  deriving DecidableEq

/-- The computation does not overflow. -/
def Sound {ε α : Type} (x : Except (Failure ε) α) : Prop := x ≠ .error .overflow

section

variable {ε : Type}

def InRange (w : ℕ) (x : ℤ) : Prop := -2 ^ w ≤ x ∧ x < 2 ^ w

instance (w : ℕ) (x : ℤ) : Decidable (InRange w x) := inferInstanceAs (Decidable (_ ∧ _))

def signed (w : ℕ) (x : ℤ) : Except (Failure ε) ℤ := if InRange w x then .ok x else .error .overflow

def demand (p : Prop) [Decidable p] (error : ε) : Except (Failure ε) Unit := if p then .ok () else .error (.rejected error)

def reject {α : Type} (error : ε) : Except (Failure ε) α := .error (.rejected error)

/-- A computation that cannot overflow. -/
def lift {α : Type} : Except ε α → Except (Failure ε) α
  | .ok a => .ok a
  | .error e => .error (.rejected e)

variable {α β : Type} {x : Except (Failure ε) α} {f : α → Except (Failure ε) β} {p : Prop} [Decidable p] {e : ε} {w : ℕ}
variable {n m : ℤ} {a : α}

theorem signed_ok : (signed w n : Except (Failure ε) ℤ) = .ok m ↔ InRange w n ∧ n = m := by
  unfold signed
  split_ifs with h
  · simp [h]
  · simp [h]

theorem signed_of_inRange (h : InRange w n) : (signed w n : Except (Failure ε) ℤ) = .ok n := if_pos h

theorem demand_ok : demand p e = .ok () ↔ p := by
  unfold demand
  split_ifs with h
  · simp [h]
  · simp [h]

theorem demand_of (h : p) : demand p e = .ok () := if_pos h

theorem lift_ok {y : Except ε α} : lift y = .ok a ↔ y = .ok a := by
  cases y with
  | ok b | error e => simp [lift]

theorem sound_ok : Sound (.ok a : Except (Failure ε) α) := fun h => nomatch h

theorem sound_demand : Sound (demand p e) := by
  unfold demand
  split_ifs with h
  · exact sound_ok
  · exact fun h => nomatch h

theorem sound_lift {y : Except ε α} : Sound (lift y) := by
  cases y with
  | ok b => exact sound_ok
  | error e => exact fun h => nomatch h

theorem sound_signed (h : InRange w n) : Sound (signed w n : Except (Failure ε) ℤ) := by
  rw [signed_of_inRange h]
  exact sound_ok

/-- **One step after the other.** -/
theorem bind_sound (hx : Sound x) (hf : ∀ a, x = .ok a → Sound (f a)) : Sound (x >>= f) := by
  cases x with
  | ok a => exact hf a rfl
  | error failure =>
    cases failure with
    | overflow => exact absurd rfl hx
    | rejected e => exact fun h => nomatch h

end

end AsterDrive.Checked
