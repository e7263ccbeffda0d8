import AsterDrive.Db.Schema
import Mathlib.Algebra.Order.BigOperators.Group.List

/-!
# BlobRepo — the statements that change `file_blobs`

The functions of `file_repo::blob`, on the blob table alone: the guarded increments, the decrements
with their floor at zero, the cleanup claim and its two ends, the reconciling write, and the three
ways a row comes into being. Deltas of a batch are merged per blob first, in a `BTreeMap`; here that
map is a list sorted by id.

`Shifted t t' d` is what all increments have in common: the row of blob `k` gains `d k`, rows that
gain something were not claimed, and rows appear only under unused ids.
-/

namespace AsterDrive.Db

open List Option SerialTable Table

/-- Rewrite the reference count of the rows that meet the filter. -/
def updateRefCounts (t : Blobs) (p : FileBlob → Bool) (g : FileBlob → ℤ) : Blobs :=
  t.updateRows p (fun b => { b with refCount := g b }) fun _ => rfl

def blobNotFound (id : ℕ) : AsterError := .recordNotFound { message := "file_blob #" ++ toString id }

/-! ### `ref_count.rs` -/

def incrementBlobRefCount (t : Blobs) (id : ℕ) : Except AsterError Blobs :=
  if t.affected (fun b => b.id = id ∧ 0 ≤ b.refCount) = 0 then .error (blobNotFound id)
  else .ok (updateRefCounts t (fun b => b.id = id ∧ 0 ≤ b.refCount) fun b => b.refCount + 1)

/-- `CASE WHEN ref_count < delta THEN 0 ELSE ref_count - delta`. -/
def flooredDecrement (delta : ℤ) (b : FileBlob) : ℤ :=
  if b.refCount < delta then 0 else b.refCount - delta

def decrementBlobRefCount (t : Blobs) (id : ℕ) : Blobs := updateRefCounts t (fun b => b.id = id) (flooredDecrement 1)

/-- The largest value of an `i32` counter. -/
def i32Max : ℤ := 2147483647

/-- The entry of a merged delta list. -/
def deltaOf (deltas : List (ℕ × ℤ)) (id : ℕ) : ℤ := (deltas.lookup id).getD 0

/-- `*entry += delta` in a map sorted by id. -/
def addDelta (id : ℕ) (delta : ℤ) : List (ℕ × ℤ) → List (ℕ × ℤ)
  | [] => [(id, delta)]
  | (k, v) :: rest =>
    if id < k then (id, delta) :: (k, v) :: rest
    else if id = k then (k, v + delta) :: rest
    else (k, v) :: addDelta id delta rest

/-- One round of `normalize_blob_ref_count_deltas`. -/
def mergeDelta (context : String) (merged : List (ℕ × ℤ)) (entry : ℕ × ℤ) : Except AsterError (List (ℕ × ℤ)) :=
  if entry.2 < 0 then
    .error (internalError (context ++ " requires positive delta for blob " ++ toString entry.1
      ++ ", got " ++ toString entry.2))
  else if entry.2 = 0 then .ok merged
  else if i32Max < deltaOf merged entry.1 + entry.2 then
    .error (internalError (context ++ " delta overflow while merging blob " ++ toString entry.1))
  else .ok (addDelta entry.1 entry.2 merged)

def normalizeBlobRefCountDeltas (deltas : List (ℕ × ℤ)) (context : String) : Except AsterError (List (ℕ × ℤ)) :=
  deltas.foldlM (mergeDelta context) []

/-- `increment_blob_ref_counts_by`: one statement for the whole batch, all rows or none. -/
def incrementBlobRefCountsBy (t : Blobs) (deltas : List (ℕ × ℤ)) : Except AsterError Blobs := do
  let deltas ← normalizeBlobRefCountDeltas deltas "increment_blob_ref_counts_by"
  let ids := deltas.map Prod.fst
  if t.affected (fun b => b.id ∈ ids ∧ (decide (0 ≤ b.refCount)) = true) ≠ ids.length then
    .error (.recordNotFound { message :=
      "one or more file_blob rows were missing or cleanup-claimed during ref_count increment" })
  else .ok (updateRefCounts t (fun b => b.id ∈ ids ∧ 0 ≤ b.refCount) fun b => b.refCount + deltaOf deltas b.id)

def decrementBlobRefCountsBy (t : Blobs) (deltas : List (ℕ × ℤ)) : Except AsterError Blobs := do
  let deltas ← normalizeBlobRefCountDeltas deltas "decrement_blob_ref_counts_by"
  let ids := deltas.map Prod.fst
  .ok (updateRefCounts t (fun b => b.id ∈ ids) fun b => flooredDecrement (deltaOf deltas b.id) b)

/-! ### `cleanup.rs` -/

/-- `claim_blob_cleanup`: whether the row went from 0 to the claim marker. -/
def claimBlobCleanup (t : Blobs) (id : ℕ) : Option Blobs :=
  if t.affected (fun b => b.id = id ∧ b.refCount = 0) = 1 then
    some (updateRefCounts t (fun b => b.id = id ∧ b.refCount = 0) fun _ => blobCleanupClaimedRefCount)
  else none

def restoreBlobCleanupClaim (t : Blobs) (id : ℕ) : Option Blobs :=
  if t.affected (fun b => b.id = id ∧ b.refCount = blobCleanupClaimedRefCount) = 1 then
    some (updateRefCounts t (fun b => b.id = id ∧ b.refCount = blobCleanupClaimedRefCount) fun _ => 0)
  else none

def deleteBlobIfCleanupClaimed (t : Blobs) (id : ℕ) : Option Blobs :=
  if t.affected (fun b => b.id = id ∧ b.refCount = blobCleanupClaimedRefCount) = 1 then
    some (t.deleteRows fun b => b.id = id ∧ b.refCount = blobCleanupClaimedRefCount)
  else none

def setBlobRefCount (t : Blobs) (id : ℕ) (refCount : ℤ) : Blobs :=
  updateRefCounts t (fun b => b.id = id) fun _ => refCount

/-! ### `lookup.rs` -/

def findBlobById (t : Blobs) (id : ℕ) : Except AsterError FileBlob :=
  match t.get id with
  | some b => .ok b
  | none => .error (blobNotFound id)

/-- The columns of the unique index. -/
def hasBlobKey (hash : String) (policyId : ℕ) (backing : FileBlobBacking) (b : FileBlob) : Bool :=
  b.hash = hash ∧ b.policyId = policyId ∧ b.backing = backing

/-- The row that the two `find_or_create` functions and `create_blob` insert. -/
def insertBlob (t : Blobs) (hash : String) (size policyId : ℕ) (backing : FileBlobBacking)
    (storagePath : Option String) : FileBlob × Blobs :=
  let mk := fun id => ({ id, hash, policyId, backing, storagePath, size, refCount := 1 } : FileBlob)
  (mk t.next, t.insert mk fun _ => rfl)

/-- The loop of the `find_or_create` functions, as one transaction sees it: an active row is
adopted; a claimed row uses up every attempt; without a row one is inserted. -/
def adoptOrInsertBlob (t : Blobs) (hash : String) (size policyId : ℕ) (backing : FileBlobBacking)
    (storagePath : Option String) (exhausted : String) : Except AsterError (FileBlob × Blobs) :=
  match t.rows.find? fun b => hasBlobKey hash policyId backing b ∧ 0 ≤ b.refCount with
  | some existing => do
    let t' ← incrementBlobRefCount t existing.id
    let model ← findBlobById t' existing.id
    .ok (model, t')
  | none =>
    if t.rows.any (hasBlobKey hash policyId backing) then .error (internalError exhausted)
    else .ok (insertBlob t hash size policyId backing storagePath)

/-- `find_or_create_blob`; `validate_blob_backing` accepts every stored blob that has a path. -/
def findOrCreateBlob (t : Blobs) (hash : String) (size policyId : ℕ) (storagePath : String) :
    Except AsterError (FileBlob × Blobs) :=
  adoptOrInsertBlob t hash size policyId .stored (some storagePath)
    ("find_or_create_blob exceeded contention retry budget after 7 attempts for hash=" ++ hash
      ++ ", policy_id=" ++ toString policyId)

/-- `find_or_create_virtual_empty_blob` for the canonical empty content. -/
def findOrCreateVirtualEmptyBlob (t : Blobs) (policyId : ℕ) : Except AsterError (FileBlob × Blobs) :=
  adoptOrInsertBlob t emptySha256 0 policyId .virtualEmpty none
    ("find_or_create_virtual_empty_blob exceeded contention retry budget for policy_id=" ++ toString policyId)

/-- `create_blob` of a stored object, refused by the unique index when the key is taken. -/
def createBlob (t : Blobs) (hash : String) (size policyId : ℕ) (storagePath : String) :
    Except AsterError (FileBlob × Blobs) :=
  if t.rows.any (hasBlobKey hash policyId .stored) then
    .error (databaseError "UNIQUE constraint failed: file_blobs.hash, policy_id, backing")
  else .ok (insertBlob t hash size policyId .stored (some storagePath))

/-- `is_content_sha256_blob_key`. -/
def isContentSha256BlobKey (blobKey : String) : Bool :=
  blobKey.length = 64 ∧ blobKey.toList.all fun c =>
    c.isDigit ∨ ('a' ≤ c ∧ c ≤ 'f') ∨ ('A' ≤ c ∧ c ≤ 'F')

/-- `PreparedNonDedupBlobUpload`, as far as the row needs it. -/
inductive PreparedNonDedupBlobUpload
  | localKey (blobKey storagePath : String) (size policyId : ℕ)
  | opaqueObject (uploadId hashPrefix storagePath : String) (size policyId : ℕ)

/-- `persist_preuploaded_blob`. -/
def persistPreuploadedBlob (t : Blobs) : PreparedNonDedupBlobUpload → Except AsterError (FileBlob × Blobs)
  | .localKey blobKey storagePath size policyId =>
    if isContentSha256BlobKey blobKey then
      .error (.validationError { message :=
        "non-deduplicated blob keys must not be 64-character hexadecimal content hashes" })
    else createBlob t blobKey size policyId storagePath
  | .opaqueObject uploadId hashPrefix storagePath size policyId =>
    createBlob t (hashPrefix ++ "-" ++ uploadId) size policyId storagePath

/-! ### Merged deltas -/

section Deltas

variable {m m' : List (ℕ × ℤ)} {id k : ℕ} {delta : ℤ}

/-- The keys of a merged list rise. -/
def Merged (m : List (ℕ × ℤ)) : Prop := m.Pairwise fun a b => a.1 < b.1

/-- What a list of deltas says about one blob, before merging. -/
def totalDelta (deltas : List (ℕ × ℤ)) (k : ℕ) : ℤ := (deltas.map fun e => if e.1 = k then e.2 else 0).sum

theorem deltaOf_cons (k : ℕ) (e : ℕ × ℤ) : deltaOf (e :: m) k = if k = e.1 then e.2 else deltaOf m k := by
  unfold deltaOf
  rw [lookup_cons]
  by_cases h : k = e.1
  · simp [h]
  · have hb : (k == e.1) = false := by simpa using h
    rw [hb, if_neg h]

theorem deltaOf_of_notMem (h : k ∉ m.map Prod.fst) : deltaOf m k = 0 := by
  induction m with
  | nil => rfl
  | cons e m ih =>
    simp only [map_cons, mem_cons, not_or] at h
    rw [deltaOf_cons, if_neg h.1, ih h.2]

theorem keys_addDelta : k ∈ (addDelta id delta m).map Prod.fst ↔ k = id ∨ k ∈ m.map Prod.fst := by
  induction m with
  | nil => simp [addDelta]
  | cons e m ih =>
    obtain ⟨key, v⟩ := e
    unfold addDelta
    by_cases h1 : id < key
    · rw [if_pos h1]
      simp
    · rw [if_neg h1]
      by_cases h2 : id = key
      · rw [if_pos h2]
        simp [h2]
      · rw [if_neg h2]
        simp only [map_cons, mem_cons, ih]
        tauto

theorem merged_addDelta (hm : Merged m) : Merged (addDelta id delta m) := by
  induction m with
  | nil => simp [addDelta, Merged]
  | cons e m ih =>
    obtain ⟨key, v⟩ := e
    obtain ⟨hhead, htail⟩ := pairwise_cons.mp hm
    unfold addDelta
    by_cases h1 : id < key
    · rw [if_pos h1]
      refine pairwise_cons.mpr ⟨?_, hm⟩
      intro x hx
      rcases mem_cons.mp hx with rfl | hx
      · exact h1
      · exact lt_trans h1 (hhead x hx)
    · rw [if_neg h1]
      by_cases h2 : id = key
      · rw [if_pos h2]
        exact pairwise_cons.mpr ⟨hhead, htail⟩
      · rw [if_neg h2]
        refine pairwise_cons.mpr ⟨?_, ih htail⟩
        intro x hx
        have hkey := (keys_addDelta).mp (List.mem_map_of_mem hx)
        rcases hkey with hkey | hkey
        · show key < x.1
          omega
        · obtain ⟨y, hy, hyx⟩ := List.mem_map.mp hkey
          have := hhead y hy
          show key < x.1
          rw [← hyx]
          exact this

theorem deltaOf_addDelta (hm : Merged m) :
    deltaOf (addDelta id delta m) k = deltaOf m k + if k = id then delta else 0 := by
  induction m with
  | nil =>
    show deltaOf [(id, delta)] k = deltaOf [] k + _
    rw [deltaOf_cons]
    simp [deltaOf]
  | cons e m ih =>
    obtain ⟨key, v⟩ := e
    obtain ⟨hhead, htail⟩ := pairwise_cons.mp hm
    unfold addDelta
    by_cases h1 : id < key
    · rw [if_pos h1, deltaOf_cons]
      by_cases hk : k = id
      · -- a key below the first one does not occur in the list
        have hnot : k ∉ ((key, v) :: m).map Prod.fst := by
          intro hmem
          rcases mem_cons.mp hmem with h | h
          · simp only at h
            omega
          · obtain ⟨x, hx, hxk⟩ := List.mem_map.mp h
            have hlt := hhead x hx
            omega
        rw [deltaOf_of_notMem hnot, if_pos hk, zero_add]
      · rw [if_neg hk, if_neg hk, add_zero]
    · rw [if_neg h1]
      by_cases h2 : id = key
      · rw [if_pos h2, deltaOf_cons, deltaOf_cons]
        by_cases hk : k = key
        all_goals simp [hk, h2]
      · rw [if_neg h2, deltaOf_cons, deltaOf_cons, ih htail]
        by_cases hk : k = key
        · have hne : k ≠ id := by omega
          simp [hk, Ne.symm h2]
        · simp [hk]

theorem pos_addDelta (hm : ∀ e ∈ m, 0 < e.2) (hd : 0 < delta) : ∀ e ∈ addDelta id delta m, 0 < e.2 := by
  induction m with
  | nil => simpa [addDelta] using hd
  | cons x m ih =>
    obtain ⟨key, v⟩ := x
    have hv : 0 < v := hm (key, v) mem_cons_self
    have htail : ∀ e ∈ m, 0 < e.2 := fun e he => hm e (mem_cons_of_mem _ he)
    intro e he
    unfold addDelta at he
    split_ifs at he
    · rcases mem_cons.mp he with rfl | he
      · exact hd
      · exact hm e he
    · rcases mem_cons.mp he with rfl | he
      · show 0 < v + delta
        omega
      · exact htail e he
    · rcases mem_cons.mp he with rfl | he
      · exact hv
      · exact ih htail e he

theorem deltaOf_pos (hm : ∀ e ∈ m, 0 < e.2) (hk : k ∈ m.map Prod.fst) : 0 < deltaOf m k := by
  induction m with
  | nil => simp at hk
  | cons e m ih =>
    rw [deltaOf_cons]
    by_cases hke : k = e.1
    · rw [if_pos hke]
      exact hm e mem_cons_self
    · rw [if_neg hke]
      refine ih (fun x hx => hm x (mem_cons_of_mem _ hx)) ?_
      rcases mem_cons.mp hk with h | h
      · exact absurd h hke
      · exact h

theorem mergeDelta_ok {context : String} {e : ℕ × ℤ} (hm : Merged m) (hpos : ∀ x ∈ m, 0 < x.2)
    (h : mergeDelta context m e = .ok m') :
    Merged m' ∧ (∀ x ∈ m', 0 < x.2) ∧ ∀ k, deltaOf m' k = deltaOf m k + if e.1 = k then e.2 else 0 := by
  unfold mergeDelta at h
  by_cases hneg : e.2 < 0
  · rw [if_pos hneg] at h
    exact absurd h (by simp)
  rw [if_neg hneg] at h
  by_cases hzero : e.2 = 0
  · rw [if_pos hzero] at h
    cases h
    refine ⟨hm, hpos, ?_⟩
    intro k
    rw [hzero]
    simp
  rw [if_neg hzero] at h
  by_cases hbig : i32Max < deltaOf m e.1 + e.2
  · rw [if_pos hbig] at h
    exact absurd h (by simp)
  rw [if_neg hbig] at h
  cases h
  refine ⟨merged_addDelta hm, pos_addDelta hpos (by omega), ?_⟩
  intro k
  rw [deltaOf_addDelta hm]
  by_cases hk : k = e.1
  · rw [if_pos hk, if_pos hk.symm]
  · rw [if_neg hk, if_neg (Ne.symm hk)]

/-- **Merging keeps every blob's total**, and every entry of the result is positive. -/
theorem normalize_ok {deltas : List (ℕ × ℤ)} {context : String}
    (h : normalizeBlobRefCountDeltas deltas context = .ok m) :
    (∀ e ∈ m, 0 < e.2) ∧ ∀ k, deltaOf m k = totalDelta deltas k := by
  have main : ∀ (l : List (ℕ × ℤ)) (a : List (ℕ × ℤ)), Merged a → (∀ e ∈ a, 0 < e.2) →
      l.foldlM (mergeDelta context) a = .ok m →
      (∀ e ∈ m, 0 < e.2) ∧ ∀ k, deltaOf m k = deltaOf a k + totalDelta l k := by
    intro l
    induction l with
    | nil =>
      intro a _ hpos hl
      obtain rfl : a = m := by simpa [pure, Except.pure] using hl
      exact ⟨hpos, fun k => by simp [totalDelta]⟩
    | cons e l ih =>
      intro a ha hpos hl
      obtain ⟨a', he, hl⟩ := bind_ok hl
      obtain ⟨ha', hpos', hd⟩ := mergeDelta_ok ha hpos he
      obtain ⟨hall, hsum⟩ := ih a' ha' hpos' hl
      refine ⟨hall, ?_⟩
      intro k
      rw [hsum k, hd k]
      simp only [totalDelta, map_cons, sum_cons]
      omega
  obtain ⟨hall, hsum⟩ := main deltas [] List.Pairwise.nil (by simp) h
  refine ⟨hall, fun k => ?_⟩
  rw [hsum k]
  simp [deltaOf]

end Deltas

/-! ### What the statements do to the rows -/

section Rows

variable {t t' : Blobs} {id : ℕ} {b : FileBlob}

theorem get_updateRefCounts (t : Blobs) (p : FileBlob → Bool) (g : FileBlob → ℤ) (k : ℕ) :
    (updateRefCounts t p g).get k = (t.get k).map fun b => if p b then { b with refCount := g b } else b :=
  get_updateWhere t.toTable p (fun b => { b with refCount := g b }) (fun _ => rfl) k

/-- A statement that asks for one blob affects a row exactly when the blob's row meets the rest of
the filter. -/
theorem affected_ne_zero {q : FileBlob → Prop} [DecidablePred q] :
    t.affected (fun b => b.id = id ∧ q b) ≠ 0 ↔ ∃ b, t.get id = some b ∧ q b := by
  unfold affected
  rw [Ne, countP_eq_zero]
  simp only [decide_eq_true_eq, not_and, not_forall, exists_prop, not_not]
  constructor
  · rintro ⟨b, hb, hid, hq⟩
    exact ⟨b, get_eq_some_iff.mpr ⟨hb, hid⟩, hq⟩
  · rintro ⟨b, hb, hq⟩
    exact ⟨b, mem_of_get hb, key_of_get hb, hq⟩

/-- The row of blob `k` gains `d k`; rows that gain something were not claimed; rows appear only
under unused ids. -/
structure Shifted (t t' : Blobs) (d : ℕ → ℤ) : Prop where
  old : ∀ k b, t.get k = some b → t'.get k = some { b with refCount := b.refCount + d k }
  active : ∀ k b, t.get k = some b → d k ≠ 0 → 0 ≤ b.refCount
  new : ∀ k b, t.get k = none → t'.get k = some b → t.next ≤ k ∧ b.refCount = d k
  hit : ∀ k, d k ≠ 0 → ∃ b, t'.get k = some b
  next : t.next ≤ t'.next

/-- One reference more on blob `id`. -/
def oneRef (id : ℕ) : ℕ → ℤ := fun k => if k = id then 1 else 0

theorem Shifted.of_update {p : FileBlob → Bool} {d : ℕ → ℤ} (hp : ∀ k b, t.get k = some b → (p b = true ↔ d k ≠ 0))
    (hpos : ∀ k b, t.get k = some b → d k ≠ 0 → 0 ≤ b.refCount)
    (hhit : ∀ k, d k ≠ 0 → ∃ b, t.get k = some b) :
    Shifted t (updateRefCounts t p fun b => b.refCount + d b.id) d := by
  have hold : ∀ k b, t.get k = some b → (updateRefCounts t p fun b => b.refCount + d b.id).get k =
        some { b with refCount := b.refCount + d k } := by
    intro k b hb
    obtain rfl : b.id = k := key_of_get hb
    rw [get_updateRefCounts, hb, map_some]
    by_cases hd : d b.id = 0
    · have hpb : ¬ p b = true := fun h => (hp _ b hb).mp h hd
      rw [if_neg hpb, hd, add_zero]
    · rw [if_pos ((hp _ b hb).mpr hd)]
  refine ⟨hold, hpos, ?_, ?_, le_refl _⟩
  · intro k b hk hb
    rw [get_updateRefCounts, hk] at hb
    simp at hb
  · intro k hd
    obtain ⟨b, hb⟩ := hhit k hd
    exact ⟨_, hold k b hb⟩

theorem increment_ok (h : incrementBlobRefCount t id = .ok t') :
    Shifted t t' (oneRef id) ∧ ∃ b, t.get id = some b ∧ 0 ≤ b.refCount := by
  unfold incrementBlobRefCount at h
  split_ifs at h with haff
  cases h
  obtain ⟨b, hb, hpos⟩ := (affected_ne_zero).mp haff
  refine ⟨?_, b, hb, hpos⟩
  have hone : ∀ k, oneRef id k ≠ 0 ↔ k = id := by
    intro k
    by_cases hk : k = id
    all_goals simp [oneRef, hk]
  have hrow : ∀ k x, t.get k = some x → k = id → x = b := by
    intro k x hx hk
    subst hk
    exact some.inj (hx.symm.trans hb)
  have hsame : updateRefCounts t (fun b => decide (b.id = id ∧ 0 ≤ b.refCount)) (fun b => b.refCount + 1) =
      updateRefCounts t (fun b => decide (b.id = id ∧ 0 ≤ b.refCount)) fun b => b.refCount + oneRef id b.id := by
    unfold updateRefCounts updateRows updateWhere
    simp only [SerialTable.mk.injEq, Table.mk.injEq, and_true]
    refine map_congr_left ?_
    intro x _
    by_cases hx : x.id = id
    · simp [hx, oneRef]
    · simp [hx]
  rw [hsame]
  refine Shifted.of_update ?_ ?_ ?_
  · intro k x hx
    rw [hone, decide_eq_true_eq, key_of_get hx]
    constructor
    · exact fun h => h.1
    · intro hk
      rw [hrow k x hx hk]
      exact ⟨hk, hpos⟩
  · intro k x hx hd
    rw [hrow k x hx ((hone k).mp hd)]
    exact hpos
  · intro k hd
    rw [(hone k).mp hd]
    exact ⟨b, hb⟩

theorem increment_next (h : incrementBlobRefCount t id = .ok t') : t'.next = t.next := by
  unfold incrementBlobRefCount at h
  split_ifs at h
  cases h
  rfl

theorem incrementBy_next {deltas : List (ℕ × ℤ)} (h : incrementBlobRefCountsBy t deltas = .ok t') :
    t'.next = t.next := by
  obtain ⟨m, _, h⟩ := bind_ok h
  dsimp only at h
  split_ifs at h
  cases h
  rfl

theorem incrementBy_ok {deltas : List (ℕ × ℤ)} (h : incrementBlobRefCountsBy t deltas = .ok t') :
    Shifted t t' (totalDelta deltas) := by
  obtain ⟨m, hm, h⟩ := bind_ok h
  obtain ⟨_, hsum⟩ := normalize_ok hm
  dsimp only at h
  split_ifs at h with haff
  rw [ne_eq, not_not] at haff
  cases h
  have hrows : ∀ k ∈ m.map Prod.fst, ∃ b, t.get k = some b ∧ 0 ≤ b.refCount := by
    intro k hk
    obtain ⟨b, hb, hpos⟩ := exists_of_affected haff hk
    exact ⟨b, hb, of_decide_eq_true hpos⟩
  have hkeys : ∀ k, totalDelta deltas k ≠ 0 → k ∈ m.map Prod.fst := by
    intro k hk
    by_contra hnot
    exact hk (by rw [← hsum k, deltaOf_of_notMem hnot])
  have hold : ∀ k b, t.get k = some b → (updateRefCounts t (fun b => decide (b.id ∈ m.map Prod.fst ∧ 0 ≤ b.refCount))
        fun b => b.refCount + deltaOf m b.id).get k =
        some { b with refCount := b.refCount + totalDelta deltas k } := by
    intro k b hb
    obtain rfl : b.id = k := key_of_get hb
    rw [get_updateRefCounts, hb, map_some, ← hsum]
    by_cases hk : b.id ∈ m.map Prod.fst
    · obtain ⟨x, hx, hpos⟩ := hrows _ hk
      obtain rfl := some.inj (hx.symm.trans hb)
      rw [if_pos (decide_eq_true ⟨hk, hpos⟩)]
    · have hnot : ¬ (decide (b.id ∈ m.map Prod.fst ∧ 0 ≤ b.refCount)) = true := by
        rw [decide_eq_true_eq]
        exact fun h => hk h.1
      rw [if_neg hnot, deltaOf_of_notMem hk, add_zero]
  refine ⟨hold, ?_, ?_, ?_, le_refl _⟩
  · intro k b hb hd
    obtain ⟨x, hx, hpos⟩ := hrows k (hkeys k hd)
    obtain rfl := some.inj (hx.symm.trans hb)
    exact hpos
  · intro k b hk hb
    rw [get_updateRefCounts, hk] at hb
    simp at hb
  · intro k hd
    obtain ⟨b, hb, _⟩ := hrows k (hkeys k hd)
    exact ⟨_, hold k b hb⟩

theorem decrementBy_ok {deltas : List (ℕ × ℤ)} (hok : decrementBlobRefCountsBy t deltas = .ok t') :
    ∃ p g, t' = updateRefCounts t p g ∧ ∀ k, t'.get k = (t.get k).map fun b =>
      if totalDelta deltas k = 0 then b
      else { b with refCount := flooredDecrement (totalDelta deltas k) b } := by
  obtain ⟨m, hm, hok⟩ := bind_ok hok
  obtain ⟨hpos, hsum⟩ := normalize_ok hm
  cases hok
  refine ⟨_, _, rfl, ?_⟩
  intro k
  rw [get_updateRefCounts]
  rcases hk : t.get k with _ | b
  · rfl
  · obtain rfl : b.id = k := key_of_get hk
    rw [map_some, map_some, ← hsum]
    by_cases hmem : b.id ∈ m.map Prod.fst
    · have hne := deltaOf_pos hpos hmem
      rw [if_pos (decide_eq_true hmem), if_neg (by omega)]
    · rw [if_neg (by simpa using hmem), if_pos (deltaOf_of_notMem hmem)]

/-- The row `b` gained a reference, and no other row appeared. -/
structure Persisted (t t' : Blobs) (b : FileBlob) : Prop where
  shifted : Shifted t t' (oneRef b.id)
  get : t'.get b.id = some b
  fresh : ∀ x ∈ t'.rows, t.next ≤ x.id → x = b

theorem insertBlob_ok {hash : String} {size policyId : ℕ} {backing : FileBlobBacking} {storagePath : Option String}
    (h : insertBlob t hash size policyId backing storagePath = (b, t')) :
    Persisted t t' b ∧ b.id = t.next ∧ b.size = size ∧ b.hash = hash ∧ b.backing = backing ∧
      b.storagePath = storagePath := by
  unfold insertBlob at h
  cases h
  refine ⟨⟨⟨?_, ?_, ?_, ?_, Nat.le_succ _⟩, ?_, ?_⟩, rfl, rfl, rfl, rfl, rfl⟩
  · intro k x hx
    have hk : k ≠ t.next := by
      have hlt := lt_next_of_get hx
      omega
    rw [get_insert, if_neg (Ne.symm hk), hx]
    simp [oneRef, hk]
  · intro k x hx hd
    have hlt := lt_next_of_get hx
    have hk : k ≠ t.next := by omega
    simp [oneRef, hk] at hd
  · intro k x hk hx
    rw [get_insert] at hx
    split_ifs at hx with heq
    · cases hx
      exact ⟨le_of_eq heq, by simp [oneRef, heq]⟩
    · rw [hk] at hx
      simp at hx
  · intro k hd
    by_cases hk : k = t.next
    · exact ⟨_, by rw [get_insert, if_pos hk.symm]⟩
    · simp [oneRef, hk] at hd
  · rw [get_insert, if_pos rfl]
  · intro x hx hle
    rcases mem_insert.mp hx with hx | rfl
    · have hlt := t.below x hx
      omega
    · rfl

/-- What a blob that was adopted or inserted has in common: it gained the one reference. -/
theorem adoptOrInsert_ok {hash exhausted : String} {size policyId : ℕ} {backing : FileBlobBacking}
    {storagePath : Option String}
    (h : adoptOrInsertBlob t hash size policyId backing storagePath exhausted = .ok (b, t')) :
    Persisted t t' b ∧ ((∃ x, t.get b.id = some x ∧ x.size = b.size ∧ hasBlobKey hash policyId backing x = true) ∨
        (b.id = t.next ∧ b.size = size ∧ b.hash = hash ∧ b.backing = backing ∧ b.storagePath = storagePath)) := by
  unfold adoptOrInsertBlob at h
  split at h
  · rename_i existing hfind
    obtain ⟨t1, hinc, h⟩ := bind_ok h
    obtain ⟨model, hmodel, h⟩ := bind_ok h
    obtain ⟨rfl, rfl⟩ := ok_pair_inj h
    have hshift := (increment_ok hinc).1
    have hmem := mem_of_find?_eq_some hfind
    have hkey := find?_some hfind
    rw [decide_eq_true_eq] at hkey
    have hexisting : t.get existing.id = some existing := get_of_mem hmem
    have hget := hshift.old _ _ hexisting
    have hmodel' : t1.get existing.id = some model := by
      unfold findBlobById at hmodel
      split at hmodel
      · rename_i x hx
        rw [hx, Except.ok.inj hmodel]
      · simp at hmodel
    have hid : model.id = existing.id := key_of_get hmodel'
    rw [hid]
    refine ⟨⟨hid ▸ hshift, hid ▸ hmodel', ?_⟩, .inl ⟨existing, hexisting, ?_, hkey.1⟩⟩
    · intro x hx hle
      have hlt := t1.below x hx
      rw [increment_next hinc] at hlt
      omega
    · rw [hmodel'] at hget
      rw [some.inj hget]
  · split_ifs at h with hany
    obtain ⟨hpers, hrow⟩ := insertBlob_ok (Except.ok.inj h)
    exact ⟨hpers, .inr hrow⟩

theorem adoptOrInsert_new {hash exhausted : String} {size policyId : ℕ} {backing : FileBlobBacking}
    {storagePath : Option String}
    (h : adoptOrInsertBlob t hash size policyId backing storagePath exhausted = .ok (b, t'))
    (hid : b.id = t.next) :
    b.policyId = policyId ∧ ∀ x ∈ t.rows, hasBlobKey hash policyId backing x = false := by
  unfold adoptOrInsertBlob at h
  split at h
  · rename_i existing hfind
    obtain ⟨t1, hinc, h⟩ := bind_ok h
    obtain ⟨model, hmodel, h⟩ := bind_ok h
    obtain ⟨rfl, rfl⟩ := ok_pair_inj h
    have hlt := t.below existing (mem_of_find?_eq_some hfind)
    have hmodelId : model.id = existing.id := by
      unfold findBlobById at hmodel
      split at hmodel
      · rename_i x hx
        rw [← Except.ok.inj hmodel]
        exact key_of_get hx
      · simp at hmodel
    omega
  · split_ifs at h with hany
    obtain ⟨rfl, rfl⟩ := ok_pair_inj h
    refine ⟨rfl, fun x hx => ?_⟩
    rw [List.any_eq_true, not_exists] at hany
    simpa [hx] using hany x

theorem createBlob_ok {hash storagePath : String} {size policyId : ℕ}
    (h : createBlob t hash size policyId storagePath = .ok (b, t')) :
    Persisted t t' b ∧ b.id = t.next ∧ b.size = size ∧ b.hash = hash ∧ b.backing = .stored ∧
      b.storagePath = some storagePath := by
  unfold createBlob at h
  split_ifs at h
  exact insertBlob_ok (Except.ok.inj h)

/-- The size recorded by `PreparedNonDedupBlobUpload`. -/
def PreparedNonDedupBlobUpload.size : PreparedNonDedupBlobUpload → ℕ
  | .localKey _ _ size _ | .opaqueObject _ _ _ size _ => size

def PreparedNonDedupBlobUpload.storagePath : PreparedNonDedupBlobUpload → String
  | .localKey _ storagePath _ _ | .opaqueObject _ _ storagePath _ _ => storagePath

theorem isContent_append_dash (x y : String) : isContentSha256BlobKey (x ++ "-" ++ y) = false := by
  have hmem : '-' ∈ (x ++ "-" ++ y).toList := by simp
  unfold isContentSha256BlobKey
  rw [Bool.eq_false_iff]
  intro h
  simp only [decide_eq_true_eq] at h
  have hall := List.all_eq_true.mp h.2 _ hmem
  exact absurd hall (by decide)

theorem persistPreuploaded_ok {prepared : PreparedNonDedupBlobUpload}
    (h : persistPreuploadedBlob t prepared = .ok (b, t')) :
    Persisted t t' b ∧ b.id = t.next ∧ b.size = prepared.size ∧
      isContentSha256BlobKey b.hash = false ∧ b.backing = .stored ∧
      b.storagePath = some prepared.storagePath := by
  cases prepared with
  | localKey blobKey storagePath size policyId =>
    simp only [persistPreuploadedBlob] at h
    split_ifs at h with hkey
    obtain ⟨hpers, hid, hsize, hhash, hbacking⟩ := createBlob_ok h
    refine ⟨hpers, hid, hsize, ?_, hbacking⟩
    rw [hhash]
    exact Bool.eq_false_iff.mpr hkey
  | opaqueObject uploadId hashPrefix storagePath size policyId =>
    obtain ⟨hpers, hid, hsize, hhash, hbacking⟩ := createBlob_ok h
    refine ⟨hpers, hid, hsize, ?_, hbacking⟩
    rw [hhash]
    exact isContent_append_dash ..

end Rows

end AsterDrive.Db
