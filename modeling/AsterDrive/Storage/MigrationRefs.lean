import AsterDrive.Storage.Migration

/-!
# Storage/MigrationRefs — what the statements of a migration do to the references

A reference is a file row or an unretired revision. A merge redirects those of one row to another (`Transferred`), a
move rewrites the row they point to (`Relocated`). `content` is what a reference reads; `Resolves` compares it before
and after, and allows for the one difference a merge can make: an object that is gone, or not the one its key names,
becomes the one its key names.
-/

namespace AsterDrive.Storage.Migration

open Db List Option

/-! ### References -/

inductive RefOwner
  | file (id : ℕ)
  | revision (id : ℕ)
  deriving DecidableEq

/-- The reference of a revision, while it is not retired. -/
def revisionRef (r : FileRevision) : Option (RefOwner × ℕ) :=
  if r.retired then none else r.blobId.map fun blobId => (.revision r.id, blobId)

/-- The file rows and the unretired revisions, each with its blob. -/
def references (db : Db) : List (RefOwner × ℕ) :=
  db.files.rows.map (fun f => (.file f.id, f.blobId)) ++ db.revisions.rows.filterMap revisionRef

/-- A merge of the blob `old` into `target`, seen from a reference. -/
def redirect (old target k : ℕ) : ℕ := if k = old then target else k

/-- The references follow `r`. -/
def Redirected (db db' : Db) (r : ℕ → ℕ) : Prop := references db' = (references db).map fun p => (p.1, r p.2)

/-- The tables after `transferReferences`. -/
structure Transferred (db db' : Db) (old target : ℕ) (n now : ℕ) : Prop where
  histories : db'.histories = db.histories
  files : db'.files.rows = db.files.rows.map fun f =>
    if f.blobId = old then { f with blobId := target, updatedAt := now } else f
  revisions : db'.revisions.rows = db.revisions.rows.map fun r =>
    if r.blobId = some old ∧ r.retired = false then { r with blobId := some target } else r
  blobs : ∀ k, db'.blobs.get k = if k = old then none else (db.blobs.get k).map fun b =>
    if k = target then { b with refCount := b.refCount + n } else b

/-- The row of blob `id` is now `b`. -/
def Relocated (t t' : Blobs) (id : ℕ) (b : FileBlob) : Prop := ∀ k, t'.get k = if k = id then some b else t.get k

section Statements

variable {t t' : Blobs} {db db' : Db} {id : ℕ} {b : FileBlob} {delta : ℤ}

theorem incrementBy_get (h : incrementBlobRefCountBy t id delta = .ok t') (k : ℕ) :
    t'.get k = (t.get k).map fun b => if k = id then { b with refCount := b.refCount + delta } else b := by
  unfold incrementBlobRefCountBy at h
  split_ifs at h with hneg hzero haff
  · cases h
    rcases hk : t.get k with _ | x
    · rfl
    · rw [map_some, hzero, add_zero, ite_self]
  · cases h
    rw [get_updateRefCounts]
    obtain ⟨x, hx, hpos⟩ := affected_ne_zero.mp haff
    rcases hk : t.get k with _ | y
    · rfl
    · have hid : y.id = k := Table.key_of_get hk
      rw [map_some, map_some]
      by_cases hkid : k = id
      · subst hkid
        obtain rfl : x = y := some.inj (hx.symm.trans hk)
        rw [if_pos rfl, if_pos (decide_eq_true ⟨hid, hpos⟩)]
      · have hne : ¬ decide (y.id = id ∧ 0 ≤ y.refCount) = true := by
          rw [decide_eq_true_eq, hid]
          exact fun h => hkid h.1
        rw [if_neg hkid, if_neg hne]

theorem incrementBy_nonneg (h : incrementBlobRefCountBy t id delta = .ok t') : 0 ≤ delta := by
  unfold incrementBlobRefCountBy at h
  split_ifs at h <;> omega

theorem replaceFileBlobRefs_rows {t : Files} {old target now : ℕ} (hne : old ≠ target) :
    (replaceFileBlobRefs t old target now).rows = t.rows.map fun f =>
      if f.blobId = old then { f with blobId := target, updatedAt := now } else f := by
  unfold replaceFileBlobRefs
  rw [if_neg hne]
  show (t.rows.map fun f => if decide (f.blobId = old) = true then _ else f) = _
  simp only [decide_eq_true_eq]

theorem replaceBlobRefs_rows {t : Revisions} {old target : ℕ} :
    (replaceBlobRefs t old target).rows = t.rows.map fun r =>
      if r.blobId = some old ∧ r.retired = false then { r with blobId := some target } else r := by
  show (t.rows.map fun r => if decide (r.blobId = some old ∧ r.retired = false) = true then _ else r) = _
  simp only [decide_eq_true_eq]

theorem transferReferences_ok {old target : FileBlob} {now : ℕ} (hne : old.id ≠ target.id)
    (h : transferReferences db old target now = .ok db') :
    ∃ n : ℕ, old.refCount = n ∧ Transferred db db' old.id target.id n now := by
  obtain ⟨blobs, hinc, h⟩ := bind_ok h
  unfold deleteBlobById at h
  split_ifs at h
  cases h
  have hnonneg := incrementBy_nonneg hinc
  obtain ⟨n, hn⟩ := Int.eq_ofNat_of_zero_le hnonneg
  refine ⟨n, hn, rfl, replaceFileBlobRefs_rows hne, replaceBlobRefs_rows, fun k => ?_⟩
  show (blobs.toTable.deleteWhere _).get k = _
  rw [Table.get_deleteWhere, incrementBy_get hinc, hn]
  rcases hk : db.blobs.get k with _ | x
  · simp
  · have hid : x.id = k := Table.key_of_get hk
    by_cases hold : k = old.id
    · rw [if_pos hold, map_some, filter_some, if_neg]
      split_ifs <;> simp [hid, hold]
    · rw [if_neg hold, map_some, filter_some, if_pos]
      split_ifs <;> simp [hid, hold]

theorem relocated_of_update {p : FileBlob → Bool} {f : FileBlob → FileBlob} {hf : ∀ x, (f x).id = x.id}
    (hb : t.get id = some b) (hp : p b = true) (hid : ∀ x, p x = true → x.id = id) :
    Relocated t (t.updateRows p f hf) id (f b) := by
  intro k
  show (t.toTable.updateWhere p f hf).get k = _
  rw [Table.get_updateWhere]
  by_cases hk : k = id
  · rw [if_pos hk, hk, hb, map_some, if_pos hp]
  · rw [if_neg hk]
    rcases hy : t.get k with _ | y
    · rfl
    · rw [map_some, if_neg]
      intro hpy
      exact hk ((Table.key_of_get hy).symm.trans (hid y hpy))

theorem moveBlobPolicyIfCurrent_ok {moved : Bool} {source target : ℕ} {hash path : String}
    (h : moveBlobPolicyIfCurrent t id source target hash path = .ok (moved, t')) (hb : t.get id = some b)
    (hsource : b.policyId = source) :
    moved = true ∧ Relocated t t' id { b with hash := hash, policyId := target, storagePath := some path } := by
  unfold moveBlobPolicyIfCurrent at h
  rw [hb, filter_some, if_pos (decide_eq_true hsource)] at h
  dsimp only at h
  split_ifs at h
  cases h
  refine ⟨rfl, relocated_of_update hb (decide_eq_true ⟨Table.key_of_get hb, hsource⟩) fun x hx => ?_⟩
  exact (of_decide_eq_true hx).1

theorem moveVirtualEmptyBlobPolicyIfCurrent_ok {moved : Bool} {source target : ℕ}
    (h : moveVirtualEmptyBlobPolicyIfCurrent t id source target = .ok (moved, t')) (hb : t.get id = some b)
    (hsource : b.policyId = source) (hempty : b.backing = .virtualEmpty) :
    moved = true ∧ Relocated t t' id { b with policyId := target } := by
  unfold moveVirtualEmptyBlobPolicyIfCurrent at h
  rw [hb, filter_some, if_pos (decide_eq_true ⟨hsource, hempty⟩)] at h
  dsimp only at h
  split_ifs at h
  cases h
  refine ⟨rfl, relocated_of_update hb (decide_eq_true ⟨Table.key_of_get hb, hsource, hempty⟩) fun x hx => ?_⟩
  exact (of_decide_eq_true hx).1

end Statements

/-! ### Counting -/

section Counts

variable {db db' : Db} {old target n now k : ℕ}

theorem countP_split {α : Type} {l : List α} {p q q' : α → Bool}
    (h : ∀ x ∈ l, (if p x then 1 else 0) = (if q x then 1 else 0) + if q' x then 1 else 0) :
    l.countP p = l.countP q + l.countP q' := by
  induction l with
  | nil => rfl
  | cons x xs ih =>
    have hx := h x mem_cons_self
    have hxs := ih fun y hy => h y (mem_cons_of_mem _ hy)
    rw [countP_cons, countP_cons, countP_cons]
    omega

/-- `f` turns what counts for `old` into what counts for `target`, and nothing else. -/
structure Redirects {α : Type} (f : α → α) (p : ℕ → α → Bool) (old target : ℕ) : Prop where
  gained : ∀ x, p old x → p target (f x)
  gone : ∀ x, p old x → ∀ j, j ≠ target → ¬ p j (f x)
  same : ∀ x, ¬ p old x → ∀ j, j ≠ old → p j (f x) = p j x
  one : ∀ x j, p old x → p j x → j = old

theorem Redirects.countP {α : Type} {f : α → α} {p : ℕ → α → Bool} (h : Redirects f p old target) (hk : k ≠ old)
    (l : List α) : (l.map f).countP (p k) = l.countP (p k) + if k = target then l.countP (p old) else 0 := by
  rw [countP_map]
  have hsplit : l.countP (p k ∘ f) = l.countP (p k) + l.countP fun x => decide (k = target) && p old x := by
    refine countP_split fun x _ => ?_
    by_cases hp : p old x = true
    · have hpk : ¬ p k x = true := fun hkx => hk (h.one x k hp hkx)
      by_cases htarget : k = target
      · subst htarget
        simp [h.gained x hp, hpk, hp]
      · simp [h.gone x hp k htarget, hpk, htarget]
    · simp [h.same x hp k hk, hp]
  rw [hsplit]
  by_cases htarget : k = target
  · simp [htarget]
  · simp [htarget]

theorem redirects_files : Redirects (fun f : File => if f.blobId = old then
    { f with blobId := target, updatedAt := now } else f) (fun j f => decide (f.blobId = j)) old target := by
  constructor <;> grind

theorem redirects_revisions (heads : List FileRevisionHistory) : Redirects (fun r : FileRevision =>
      if r.blobId = some old ∧ r.retired = false then { r with blobId := some target } else r)
    (fun j r => decide (r.blobId = some j ∧ r.retired = false ∧
      ∃ h ∈ heads, h.id = r.historyId ∧ h.currentRevisionId ≠ some r.id)) old target := by
  constructor <;> grind

theorem Transferred.count (h : Transferred db db' old target n now) (hk : k ≠ old) : currentBlobRefCount db' k =
      currentBlobRefCount db k + if k = target then currentBlobRefCount db old else 0 := by
  unfold currentBlobRefCount countNonCurrentBlobRefs
  rw [h.files, h.revisions, h.histories, redirects_files.countP hk, (redirects_revisions _).countP hk]
  split_ifs <;> push_cast <;> omega

theorem Transferred.redirected (h : Transferred db db' old target n now) : Redirected db db' (redirect old target) := by
  unfold Redirected references
  rw [h.files, h.revisions, map_append, List.map_map, List.map_map, filterMap_map, map_filterMap]
  refine congrArg₂ (· ++ ·) (map_congr_left fun f _ => ?_) (filterMap_congr fun r _ => ?_)
  · show (RefOwner.file (if f.blobId = old then _ else f).id, (if f.blobId = old then _ else f).blobId) = _
    unfold redirect
    by_cases hf : f.blobId = old
    · simp [hf]
    · simp [hf]
  · show revisionRef (if r.blobId = some old ∧ r.retired = false then _ else r) = _
    unfold revisionRef redirect
    by_cases hr : r.blobId = some old ∧ r.retired = false
    · simp [hr.1, hr.2]
    · rw [if_neg hr]
      by_cases hretired : r.retired = true
      · simp [hretired]
      · rw [Bool.not_eq_true] at hretired
        rcases hblob : r.blobId with _ | k
        · simp [hretired]
        · have hk : k ≠ old := fun hk => hr ⟨hk ▸ hblob, hretired⟩
          simp [hretired, hk]

end Counts

/-! ### Contents -/

/-- What a reference to the blob reads. -/
def content (s : Store) (blobId : ℕ) : Option Body :=
  (s.db.blobs.get blobId).bind fun b =>
    match b.backing with
    | .virtualEmpty => some []
    | .stored => b.storagePath.bind (s.objects b.policyId)

variable (cfg : Setup)

/-- What was read before is read now; or the blob's key is the digest of its content, and where nothing with this
digest was read before, it is now. -/
def Resolves (s s' : Store) (blobId blobId' : ℕ) : Prop :=
  content s' blobId' = content s blobId ∨
    ∃ b body, s.db.blobs.get blobId = some b ∧ b.backing = .stored ∧ isContentSha256BlobKey b.hash = true ∧
      (content s blobId).map cfg.sha256 ≠ some b.hash ∧
      content s' blobId' = some body ∧ cfg.sha256 body = b.hash

/-- The references are the same, and read the same. -/
def ReferencesKept (s s' : Store) : Prop :=
  List.Forall₂ (fun p p' => p'.1 = p.1 ∧ Resolves cfg s s' p.2 p'.2) (references s.db) (references s'.db)

/-- The blob is one that the migration has before it. -/
def InSource (s : Store) (blobId : ℕ) : Prop := ∃ b, s.db.blobs.get blobId = some b ∧ b.policyId = cfg.sourcePolicyId

/-- What a step does to the blob behind a reference: a blob of the source policy stays as it is or leaves the policy,
the others stay as they are. -/
structure Carries (s s' : Store) (r : ℕ → ℕ) : Prop where
  redirected : Redirected s.db s'.db r
  source : ∀ k, InSource cfg s k → (r k = k ∧ s'.db.blobs.get k = s.db.blobs.get k ∧ content s' k = content s k) ∨
      (¬ InSource cfg s' (r k) ∧ Resolves cfg s s' k (r k))
  away : ∀ k, ¬ InSource cfg s k → r k = k ∧ ¬ InSource cfg s' k ∧ content s' k = content s k

/-- A reference on its way: its blob is still the one it was, or has left the source policy. -/
def Follows (s₀ s : Store) (k₀ k : ℕ) : Prop :=
  (InSource cfg s k ∧ k = k₀ ∧ s.db.blobs.get k = s₀.db.blobs.get k ∧ content s k = content s₀ k) ∨
    (¬ InSource cfg s k ∧ Resolves cfg s₀ s k₀ k)

section Contents

variable {cfg} {s s' s₀ : Store} {r : ℕ → ℕ} {k k₀ : ℕ}

theorem Resolves.of_eq (h : content s' k = content s k₀) : Resolves cfg s s' k₀ k := .inl h

theorem Follows.refl (s : Store) (k : ℕ) : Follows cfg s s k k := by
  by_cases hk : InSource cfg s k
  · exact .inl ⟨hk, rfl, rfl, rfl⟩
  · exact .inr ⟨hk, .of_eq rfl⟩

theorem Follows.resolves (h : Follows cfg s₀ s k₀ k) : Resolves cfg s₀ s k₀ k := by
  rcases h with ⟨_, rfl, _, hcontent⟩ | ⟨_, h⟩
  · exact .of_eq hcontent
  · exact h

theorem Follows.step (h : Follows cfg s₀ s k₀ k) (hc : Carries cfg s s' r) : Follows cfg s₀ s' k₀ (r k) := by
  rcases h with ⟨hk, rfl, hrow, hcontent⟩ | ⟨hk, hres⟩
  · rcases hc.source k hk with ⟨hr, hrow', hcontent'⟩ | ⟨hout, hres⟩
    · refine .inl ⟨?_, hr, ?_, ?_⟩
      · obtain ⟨b, hb, hpolicy⟩ := hk
        exact ⟨b, by rw [hr, hrow', hb], hpolicy⟩
      · rw [hr, hrow', hrow]
      · rw [hr, hcontent', hcontent]
    · -- the blob was untouched until this step
      refine .inr ⟨hout, ?_⟩
      unfold Resolves at hres ⊢
      rw [← hrow, ← hcontent]
      exact hres
  · obtain ⟨hr, hout, hcontent⟩ := hc.away k hk
    refine .inr ⟨hr.symm ▸ hout, ?_⟩
    unfold Resolves at hres ⊢
    rw [hr, hcontent]
    exact hres

/-- All references on their way. -/
def AllFollow (cfg : Setup) (s₀ s : Store) : Prop :=
  List.Forall₂ (fun p p' => p'.1 = p.1 ∧ Follows cfg s₀ s p.2 p'.2) (references s₀.db) (references s.db)

theorem AllFollow.refl (s : Store) : AllFollow cfg s s := by
  unfold AllFollow
  rw [forall₂_same]
  exact fun p _ => ⟨rfl, .refl s p.2⟩

theorem AllFollow.step (h : AllFollow cfg s₀ s) (hc : Carries cfg s s' r) : AllFollow cfg s₀ s' := by
  unfold AllFollow at h ⊢
  rw [hc.redirected, forall₂_map_right_iff]
  exact h.imp fun p p' hp => ⟨hp.1, hp.2.step hc⟩

theorem AllFollow.kept (h : AllFollow cfg s₀ s) : ReferencesKept cfg s₀ s := h.imp fun _ _ hp => ⟨hp.1, hp.2.resolves⟩

theorem InSource.of_get {b : FileBlob} (h : s.db.blobs.get k = some b) :
    InSource cfg s k ↔ b.policyId = cfg.sourcePolicyId := by
  constructor
  · rintro ⟨b', hb', hpolicy⟩
    rw [h] at hb'
    exact some.inj hb' ▸ hpolicy
  · exact fun hpolicy => ⟨b, h, hpolicy⟩

end Contents

end AsterDrive.Storage.Migration
