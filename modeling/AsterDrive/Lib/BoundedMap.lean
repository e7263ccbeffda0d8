import Mathlib.Data.List.Basic

/-!
# BoundedMap — a cache that forgets

A map that makes room for a new key by dropping an entry of anybody's choice. What a lookup returns was inserted
under its key, so a property of the inserted entries is one of what is found (`holds_insert`, `Holds.get`).
-/

namespace AsterDrive

/-- The entries, and how many have been dropped. -/
structure BoundedMap (κ α : Type*) where
  entries : List (κ × α) := []
  dropped : ℕ := 0

namespace BoundedMap

variable {κ α : Type*} [DecidableEq κ] {P : κ → α → Prop} {m : BoundedMap κ α} {k : κ} {v : α}

def get (m : BoundedMap κ α) (k : κ) : Option α := (m.entries.find? fun e => e.1 = k).map Prod.snd

/-- `choice n` is the entry that goes at the `n`-th time that there is no room. -/
def insert (limit : ℕ) (choice : ℕ → ℕ) (m : BoundedMap κ α) (k : κ) (v : α) : BoundedMap κ α :=
  let room := if limit ≤ m.entries.length ∧ m.get k = none then
      { entries := m.entries.eraseIdx (choice m.dropped % m.entries.length), dropped := m.dropped + 1 }
    else m
  { room with entries := (k, v) :: room.entries.filter fun e => e.1 ≠ k }

def Holds (P : κ → α → Prop) (m : BoundedMap κ α) : Prop := ∀ e ∈ m.entries, P e.1 e.2

theorem holds_empty : Holds P ({} : BoundedMap κ α) := fun _ he => by cases he

theorem Holds.get (h : Holds P m) (hget : m.get k = some v) : P k v := by
  obtain ⟨e, hfind, rfl⟩ := Option.map_eq_some_iff.mp hget
  have hk := List.find?_some hfind
  rw [decide_eq_true_eq] at hk
  rw [← hk]
  exact h e (List.mem_of_find?_eq_some hfind)

theorem holds_insert (h : Holds P m) (hv : P k v) (limit : ℕ) (choice : ℕ → ℕ) :
    Holds P (m.insert limit choice k v) := by
  intro e he
  rcases List.mem_cons.mp he with rfl | he
  · exact hv
  · have hroom := (List.mem_filter.mp he).1
    split_ifs at hroom with hfull
    · exact h e (List.mem_of_mem_eraseIdx hroom)
    · exact h e hroom

end BoundedMap

end AsterDrive
