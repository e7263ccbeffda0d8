import Mathlib.Data.Int.Notation
import Mathlib.Logic.Function.Basic
import Mathlib.Tactic.Common

/-!
# ExpiringSet — a set whose entries run out

An entry that was inserted at the time `t` with the lifetime `ttl` is there until `t + ttl`. `Lasts` is what stays
true of an inserted entry for good: it is there until its time at least, whatever else is inserted, and whoever
finds it gone comes after that time.
-/

namespace AsterDrive

/-- The time at which each entry runs out, for the entries that were ever inserted. -/
structure ExpiringSet (κ : Type*) where
  expiresAt : κ → Option ℤ

namespace ExpiringSet

variable {κ : Type*} [DecidableEq κ] {s : ExpiringSet κ} {k k' : κ} {now ttl t : ℤ}

def empty : ExpiringSet κ := ⟨fun _ => none⟩

/-- The entry is there. -/
def contains (s : ExpiringSet κ) (k : κ) (now : ℤ) : Bool := (s.expiresAt k).any fun t => now < t

/-- The set with the entry, and whether it was not there before. -/
def setIfAbsent (s : ExpiringSet κ) (k : κ) (now ttl : ℤ) : ExpiringSet κ × Bool :=
  if s.contains k now then (s, false) else (⟨Function.update s.expiresAt k (some (now + ttl))⟩, true)

/-- The entry is there until `t` at least. -/
def Lasts (s : ExpiringSet κ) (k : κ) (t : ℤ) : Prop := ∃ e, s.expiresAt k = some e ∧ t ≤ e

theorem lasts_of_inserted (h : (s.setIfAbsent k now ttl).2 = true) : (s.setIfAbsent k now ttl).1.Lasts k (now + ttl) := by
  by_cases hthere : s.contains k now = true
  · rw [setIfAbsent, if_pos hthere] at h
    cases h
  · rw [setIfAbsent, if_neg hthere]
    exact ⟨now + ttl, Function.update_self .., Int.le_refl _⟩

theorem Lasts.setIfAbsent (h : s.Lasts k t) (httl : 0 ≤ ttl) : (s.setIfAbsent k' now ttl).1.Lasts k t := by
  by_cases hthere : s.contains k' now = true
  · rw [ExpiringSet.setIfAbsent, if_pos hthere]
    exact h
  · rw [ExpiringSet.setIfAbsent, if_neg hthere]
    obtain ⟨e, he, hle⟩ := h
    by_cases hk : k = k'
    · subst hk
      have hout : e ≤ now := by simpa [contains, he] using hthere
      exact ⟨now + ttl, Function.update_self .., by omega⟩
    · exact ⟨e, (Function.update_of_ne hk _ _).trans he, hle⟩

theorem Lasts.le_of_inserted (h : s.Lasts k t) (hnew : (s.setIfAbsent k now ttl).2 = true) : t ≤ now := by
  obtain ⟨e, he, hle⟩ := h
  by_cases hthere : s.contains k now = true
  · rw [ExpiringSet.setIfAbsent, if_pos hthere] at hnew
    cases hnew
  · have hout : e ≤ now := by simpa [contains, he] using hthere
    omega

end ExpiringSet

end AsterDrive
