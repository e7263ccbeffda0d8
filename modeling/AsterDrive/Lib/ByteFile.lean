import Mathlib.Data.List.Basic
import Mathlib.Tactic.Common

/-!
# ByteFile — a file written at computed positions

A file is a length and a byte for every position; past the end it reads as zero. `pwrite` is the
positional write of a file system: it extends the file when it has to and touches no other
position.

`HasAt f off data` says that `data` stands at `off`. It survives writes elsewhere
(`HasAt.pwrite_of_disjoint`), a write of the next piece extends it (`HasAt.pwrite_append`), and
pieces that tile the whole file give its content (`content_of_tiles`).
-/

namespace AsterDrive

open List

variable {β : Type*} [Zero β]

structure ByteFile (β : Type*) [Zero β] where
  len : ℕ
  byte : ℕ → β
  beyond : ∀ k, len ≤ k → byte k = 0

namespace ByteFile

/-- A file of the given length that reads as zero. -/
def zeros (len : ℕ) : ByteFile β := ⟨len, fun _ => 0, fun _ _ => rfl⟩

def content (f : ByteFile β) : List β := (List.range f.len).map f.byte

@[simp] theorem length_content (f : ByteFile β) : f.content.length = f.len := by
  simp [content]

/-- Write `data` at position `off`. -/
def pwrite (f : ByteFile β) (off : ℕ) (data : List β) : ByteFile β where
  len := if data = [] then f.len else max f.len (off + data.length)
  byte k := if off ≤ k then (data[k - off]?).getD (f.byte k) else f.byte k
  beyond := by
    intro k hk
    have hdata : data[k - off]? = none ∨ k < off := by
      by_cases hoff : off ≤ k
      · left
        rw [List.getElem?_eq_none_iff]
        split_ifs at hk with hnil
        · simp [hnil]
        · omega
      · right
        omega
    have hlen : f.len ≤ k := by
      split_ifs at hk
      · exact hk
      · omega
    rcases hdata with h | h
    · rw [h]
      simp [f.beyond k hlen]
    · rw [if_neg (by omega)]
      exact f.beyond k hlen

variable {f : ByteFile β} {off : ℕ} {data : List β}

theorem byte_pwrite_of_lt {k : ℕ} (h : k < off) : (f.pwrite off data).byte k = f.byte k := if_neg (by omega)

theorem byte_pwrite_of_ge {k : ℕ} (h : off + data.length ≤ k) : (f.pwrite off data).byte k = f.byte k := by
  unfold pwrite
  simp only
  rw [if_pos (by omega), getElem?_eq_none (by omega)]
  rfl

theorem byte_pwrite_of_mem {i : ℕ} (h : i < data.length) : (f.pwrite off data).byte (off + i) = data[i] := by
  unfold pwrite
  simp only
  rw [if_pos (by omega), Nat.add_sub_cancel_left, getElem?_eq_getElem h]
  rfl

/-- The bytes from `off` on are `data`. -/
def HasAt (f : ByteFile β) (off : ℕ) (data : List β) : Prop :=
  ∀ (i : ℕ) (h : i < data.length), f.byte (off + i) = data[i]

theorem HasAt.nil (f : ByteFile β) (off : ℕ) : HasAt f off [] := by
  intro i h
  simp at h

theorem HasAt.pwrite_of_disjoint {off' : ℕ} {data' : List β} (h : HasAt f off data)
    (hd : off + data.length ≤ off' ∨ off' + data'.length ≤ off) :
    HasAt (f.pwrite off' data') off data := by
  intro i hi
  rcases hd with hd | hd
  · rw [byte_pwrite_of_lt (by omega)]
    exact h i hi
  · rw [byte_pwrite_of_ge (by omega)]
    exact h i hi

theorem HasAt.pwrite_append {done piece : List β} (h : HasAt f off done) :
    HasAt (f.pwrite (off + done.length) piece) off (done ++ piece) := by
  intro i hi
  by_cases hlt : i < done.length
  · rw [byte_pwrite_of_lt (by omega), getElem_append_left hlt]
    exact h i hlt
  · rw [length_append] at hi
    obtain ⟨j, rfl⟩ : ∃ j, i = done.length + j := ⟨i - done.length, by omega⟩
    have hj : j < piece.length := by omega
    rw [← Nat.add_assoc, byte_pwrite_of_mem hj]
    simp

theorem content_of_tiles {n : ℕ} {off : ℕ → ℕ} {data : ℕ → List β}
    (h0 : off 0 = 0) (hstep : ∀ i < n, off (i + 1) = off i + (data i).length)
    (hat : ∀ i < n, HasAt f (off i) (data i)) (hlen : f.len = off n) :
    f.content = (List.range n).flatMap data := by
  have hprefix : ∀ m ≤ n, (List.range (off m)).map f.byte = (List.range m).flatMap data := by
    intro m
    induction m with
    | zero =>
      intro _
      simp [h0]
    | succ m ih =>
      intro hm
      have hpiece : (List.range (data m).length).map (fun i => f.byte (off m + i)) = data m := by
        refine ext_getElem (by simp) fun i hi hi' => ?_
        simpa using hat m (by omega) i hi'
      rw [hstep m (by omega), range_add, map_append, ih (by omega), map_map, range_succ, flatMap_append]
      congr 1
      simpa [Function.comp_def] using hpiece
  unfold content
  rw [hlen]
  exact hprefix n (Nat.le_refl n)

end ByteFile

end AsterDrive
