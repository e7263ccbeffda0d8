import Mathlib.Data.Int.Notation
import Mathlib.Tactic.Common

/-!
# Decimal — numbers as decimal text

A number is written in one way, with digits and a sign only.
-/

namespace AsterDrive.Decimal

variable {m n : ℕ} {a b : ℤ} {c : Char}

theorem notMem_repr (hc : c.isDigit = false) : c ∉ n.repr.toList := by
  rw [Nat.toList_repr]
  intro h
  simp [Nat.isDigit_of_mem_toDigits (by decide) (by decide) h] at hc

theorem repr_inj (h : m.repr.toList = n.repr.toList) : m = n := by
  rw [Nat.toList_repr, Nat.toList_repr] at h
  have hdigits := congrArg (fun l => Nat.ofDigitChars 10 l 0) h
  simpa using hdigits

theorem repr_ne_nil : n.repr.toList ≠ [] := by
  rw [Nat.toList_repr]
  exact Nat.toDigits_ne_nil

theorem toList_toString_int : (toString a).toList = if 0 ≤ a then a.toNat.repr.toList else '-' :: (-a).toNat.repr.toList := by
  rw [Int.toString_eq_repr, Int.repr_eq_if]
  split_ifs
  · rfl
  · simp

theorem notMem_toString_int (hc : c.isDigit = false) (hsign : c ≠ '-') : c ∉ (toString a).toList := by
  rw [toList_toString_int]
  split_ifs
  · exact notMem_repr hc
  · rw [List.mem_cons]
    exact fun h => h.elim hsign (notMem_repr hc)

theorem toString_int_inj (h : (toString a).toList = (toString b).toList) : a = b := by
  have hminus : ∀ {n : ℕ} {l : List Char}, n.repr.toList ≠ '-' :: l := fun {n l} h =>
    notMem_repr (c := '-') (n := n) rfl (h ▸ List.mem_cons_self)
  rw [toList_toString_int, toList_toString_int] at h
  split_ifs at h
  · have hnat := repr_inj h
    omega
  · exact absurd h hminus
  · exact absurd h.symm hminus
  · have hnat := repr_inj (List.cons.inj h).2
    omega

end AsterDrive.Decimal
