import AsterDrive.Workspace.ClaimedRows

/-!
# BlobCleanup — the cleanups that follow a purge

`ensure_blob_cleanup_if_unreferenced` and `cleanup_claimed_blob`, one statement or driver call at a time. A cleanup
claims a row that nothing refers to, deletes its object and then the row, and gives the claim back when something
fails. Many of them run side by side.

`Claims` is what keeps them apart: each claimed row has one holder, and nobody else writes to it.
-/

namespace AsterDrive.Db

open List Option

/-- The blob is the content of a file or of an unretired revision. -/
def isReferenced (db : Db) (blobId : ℕ) : Bool :=
  (db.files.rows.any fun f => f.blobId = blobId) ∨
    db.revisions.rows.any fun r => r.retired = false ∧ r.blobId = some blobId

theorem isReferenced_iff {db : Db} {k : ℕ} : isReferenced db k ↔
    (∃ f ∈ db.files.rows, f.blobId = k) ∨ ∃ r ∈ db.revisions.rows, r.retired = false ∧ r.blobId = some k := by
  simp [isReferenced]

/-- `ensure_blob_cleanup_if_unreferenced` for one blob, at its next statement or call. -/
inductive Cleanup
  | find (blobId : ℕ)
  | claim (blob : FileBlob)
  | removeObject (blob : FileBlob)
  | delete (blobId : ℕ)
  | restore (blobId : ℕ)
  deriving DecidableEq

/-- The blobs whose references a purge of these files drops. -/
def heldBlobs (db : Db) (fileIds : List ℕ) : List ℕ :=
  match retireHistories fileIds db with
  | .ok (refs, _) => (countRefs refs).map Prod.fst
  | .error _ => []

/-- A cleanup's next statement or call. A failure is only logged. -/
def stepCleanup (db : Db) (succeeds : Bool) : Cleanup → Db × Option Cleanup
  | .find blobId =>
    match db.blobs.get blobId with
    | none => (db, none)
    | some b => (db, if succeeds ∧ b.refCount = 0 then some (.claim b) else none)
  | .claim b =>
    if succeeds then
      match claimBlobCleanup db.blobs b.id with
      | some blobs => ({ db with blobs }, some (if b.backing = .virtualEmpty then .delete b.id else .removeObject b))
      | none => (db, none)
    else (db, none)
  | .removeObject b => (db, some (if succeeds then .delete b.id else .restore b.id))
  | .delete blobId =>
    -- `ON DELETE RESTRICT` of files and of revisions
    if succeeds ∧ isReferenced db blobId = false then
      match deleteBlobIfCleanupClaimed db.blobs blobId with
      | some blobs => ({ db with blobs }, none)
      | none => (db, some (.restore blobId))
    else (db, some (.restore blobId))
  | .restore blobId =>
    if succeeds then
      match restoreBlobCleanupClaim db.blobs blobId with
      | some blobs => ({ db with blobs }, none)
      | none => (db, none)
    else (db, none)

/-- How far a cleanup is from its end. -/
def Cleanup.cost : Cleanup → ℕ
  | .find _ => 5
  | .claim _ => 4
  | .removeObject _ => 3
  | .delete _ => 2
  | .restore _ => 1

theorem stepCleanup_cost (db : Db) (succeeds : Bool) (c : Cleanup) :
    ((stepCleanup db succeeds c).2.toList.map Cleanup.cost).sum < c.cost := by
  cases c <;> simp only [stepCleanup] <;> repeat' split
  all_goals simp [Cleanup.cost]

section Books

variable {db : Db}

theorem stepCleanup_keeps {W : Watched} (h : Consistent W db) (succeeds : Bool) (c : Cleanup) :
    Underway W db (stepCleanup db succeeds c).1 ∅ 0 0 := by
  have hclaim : ∀ k blobs, claimBlobCleanup db.blobs k = some blobs → Underway W db { db with blobs } ∅ 0 0 :=
    fun k _ hsome => claimCleanup_keeps h (k := k) (onBlobsIf_of hsome)
  have hdelete : ∀ k blobs, deleteBlobIfCleanupClaimed db.blobs k = some blobs → Underway W db { db with blobs } ∅ 0 0 :=
    fun k _ hsome => deleteClaimedBlob_keeps h (k := k) (onBlobsIf_of hsome)
  have hrestore : ∀ k blobs, restoreBlobCleanupClaim db.blobs k = some blobs → Underway W db { db with blobs } ∅ 0 0 :=
    fun k _ hsome => restoreClaim_keeps h (k := k) (onBlobsIf_of hsome)
  cases c with simp only [stepCleanup]
  | find blobId =>
    split <;> exact h
  | claim b =>
    cases succeeds with
    | false => exact h
    | true =>
      simp only [stepCleanup, if_true]
      split
      · rename_i blobs hsome
        exact hclaim _ _ hsome
      · exact h
  | removeObject b => exact h
  | delete blobId =>
    split_ifs
    · split
      · rename_i blobs hsome
        exact hdelete _ _ hsome
      · exact h
    · exact h
  | restore blobId =>
    split_ifs
    · split
      · rename_i blobs hsome
        exact hrestore _ _ hsome
      · exact h
    · exact h

theorem stepCleanup_usage (db : Db) (succeeds : Bool) (c : Cleanup) : (stepCleanup db succeeds c).1.usage = db.usage := by
  cases c <;> simp only [stepCleanup] <;> repeat' split
  all_goals rfl

end Books

/-! ### Claims -/

namespace Cleanup

/-- The row that the cleanup has claimed. -/
def held : Cleanup → Option ℕ
  | .find _ | .claim _ => none
  | .removeObject b => some b.id
  | .delete blobId | .restore blobId => some blobId

/-- The row as the cleanup has read it. -/
def seen : Cleanup → Option FileBlob
  | .claim b | .removeObject b => some b
  | .find _ | .delete _ | .restore _ => none

/-- The object that the next call deletes: policy and path. -/
def object : Cleanup → Option (ℕ × String)
  | .removeObject b => b.storagePath.map fun path => (b.policyId, path)
  | .find _ | .claim _ | .delete _ | .restore _ => none

end Cleanup

/-- Each claimed row has one holder, and what the cleanups have read of the rows is true but for the counts. -/
structure Claims (blobs : Blobs) (cleanups : List Cleanup) : Prop where
  apart : (cleanups.filterMap Cleanup.held).Nodup
  claimed : ∀ k ∈ cleanups.filterMap Cleanup.held, ∃ b, blobs.get k = some b ∧ b.refCount = blobCleanupClaimedRefCount
  seen : ∀ b ∈ cleanups.filterMap Cleanup.seen,
    b.id < blobs.next ∧ ∀ b', blobs.get b.id = some b' → b' = { b with refCount := b'.refCount }

namespace Claims

variable {t t' : Blobs} {cs cs' front back : List Cleanup} {c : Cleanup}

theorem nil (t : Blobs) : Claims t [] := by
  refine ⟨nodup_nil, fun k hk => ?_, fun b hb => ?_⟩
  · cases hk
  · cases hb

theorem sublist (h : Claims t cs) (hsub : cs'.Sublist cs) : Claims t cs' := by
  refine ⟨h.apart.sublist (hsub.filterMap _), fun k hk => ?_, fun b hb => ?_⟩
  · exact h.claimed k ((hsub.filterMap _).subset hk)
  · exact h.seen b ((hsub.filterMap _).subset hb)

/-- **Frame rule.** Rows keep their columns, and those that are held keep their claim. -/
theorem frame (h : Claims t cs) (hkept : BlobsKept t t')
    (hspares : ∀ k ∈ cs.filterMap Cleanup.held, ∀ b, t.get k = some b → b.refCount = blobCleanupClaimedRefCount →
      t'.get k = some b) : Claims t' cs := by
  refine ⟨h.apart, fun k hk => ?_, fun b hb => ?_⟩
  · obtain ⟨b, hb, hclaimed⟩ := h.claimed k hk
    exact ⟨b, hspares k hk b hb hclaimed, hclaimed⟩
  · obtain ⟨hlt, hsame⟩ := h.seen b hb
    refine ⟨lt_of_lt_of_le hlt hkept.next, fun b' hb' => ?_⟩
    obtain ⟨x, hx, hx'⟩ := hkept.old b.id b' hlt hb'
    rw [hx', hsame x hx]

theorem insert (h : Claims t (front ++ back))
    (hheld : ∀ k, c.held = some k → k ∉ (front ++ back).filterMap Cleanup.held ∧
      ∃ b, t.get k = some b ∧ b.refCount = blobCleanupClaimedRefCount)
    (hseen : ∀ b, c.seen = some b → b.id < t.next ∧ ∀ b', t.get b.id = some b' → b' = { b with refCount := b'.refCount }) :
    Claims t (front ++ c :: back) := by
  have hperm : (front ++ c :: back).Perm (c :: (front ++ back)) := perm_middle
  refine ⟨?_, fun k hk => ?_, fun b hb => ?_⟩
  · rw [(hperm.filterMap _).nodup_iff, filterMap_cons]
    cases hc : c.held with
    | none => exact h.apart
    | some k => exact nodup_cons.mpr ⟨(hheld k hc).1, h.apart⟩
  · have hmem := (hperm.filterMap _).subset hk
    obtain ⟨x, hx, hxk⟩ := mem_filterMap.mp hmem
    rcases mem_cons.mp hx with rfl | hx
    · exact (hheld k hxk).2
    · exact h.claimed k (mem_filterMap.mpr ⟨x, hx, hxk⟩)
  · have hmem := (hperm.filterMap _).subset hb
    obtain ⟨x, hx, hxb⟩ := mem_filterMap.mp hmem
    rcases mem_cons.mp hx with rfl | hx
    · exact hseen b hxb
    · exact h.seen b (mem_filterMap.mpr ⟨x, hx, hxb⟩)

theorem held_middle (h : Claims t (front ++ c :: back)) {k : ℕ} (hk : c.held = some k) :
    k ∉ (front ++ back).filterMap Cleanup.held ∧ ∃ b, t.get k = some b ∧ b.refCount = blobCleanupClaimedRefCount := by
  have hperm : (front ++ c :: back).Perm (c :: (front ++ back)) := perm_middle
  have hapart := h.apart
  rw [(hperm.filterMap _).nodup_iff, filterMap_cons, hk] at hapart
  refine ⟨(nodup_cons.mp hapart).1, h.claimed k ?_⟩
  exact mem_filterMap.mpr ⟨c, mem_append_right _ mem_cons_self, hk⟩

theorem seen_middle (h : Claims t (front ++ c :: back)) {b : FileBlob} (hb : c.seen = some b) :
    b.id < t.next ∧ ∀ b', t.get b.id = some b' → b' = { b with refCount := b'.refCount } :=
  h.seen b (mem_filterMap.mpr ⟨c, mem_append_right _ mem_cons_self, hb⟩)

theorem others (h : Claims t (front ++ c :: back)) : Claims t (front ++ back) :=
  h.sublist (Sublist.append_left (sublist_cons_self c back) front)

end Claims

theorem Claims.claim {t t' : Blobs} {front back : List Cleanup} {b : FileBlob} {c : Cleanup}
    (h : Claims t (front ++ .claim b :: back)) (hkept : BlobsKept t t') (hclaim : claimBlobCleanup t b.id = some t')
    (hheld : c.held = some b.id) (hseen : ∀ x, c.seen = some x → x = b) : Claims t' (front ++ c :: back) := by
  unfold claimBlobCleanup at hclaim
  split_ifs at hclaim with haffected
  cases hclaim
  obtain ⟨x, hx, hzero⟩ := (affected_ne_zero (q := fun b => b.refCount = 0)).mp (by rw [haffected]; decide)
  have hget : ∀ k, (updateRefCounts t (fun y => decide (y.id = b.id ∧ y.refCount = 0))
      fun _ => blobCleanupClaimedRefCount).get k = (t.get k).map fun y =>
        if y.id = b.id ∧ y.refCount = 0 then { y with refCount := blobCleanupClaimedRefCount } else y := by
    intro k
    rw [get_updateRefCounts]
    simp
  have hrow : (updateRefCounts t (fun y => decide (y.id = b.id ∧ y.refCount = 0))
      fun _ => blobCleanupClaimedRefCount).get b.id = some { x with refCount := blobCleanupClaimedRefCount } := by
    rw [hget b.id, hx, map_some, if_pos ⟨Table.key_of_get hx, hzero⟩]
  have hothers := h.others.frame hkept fun k hk y hy hclaimed => by
    rw [hget k, hy, map_some, if_neg]
    rintro ⟨_, hcount⟩
    rw [hclaimed] at hcount
    exact absurd hcount (by decide)
  refine hothers.insert (fun k hk => ?_) fun y hy => ?_
  · obtain rfl := some.inj (hheld.symm.trans hk)
    refine ⟨fun hin => ?_, _, hrow, rfl⟩
    -- the row counted nothing, so nobody had claimed it
    obtain ⟨y, hy, hclaimed⟩ := h.others.claimed b.id hin
    rw [← some.inj (hx.symm.trans hy), hzero] at hclaimed
    exact absurd hclaimed (by decide)
  · obtain rfl := hseen y hy
    obtain ⟨hlt, hsame⟩ := h.seen_middle (c := .claim y) rfl
    refine ⟨hlt, fun b' hb' => ?_⟩
    rw [hrow] at hb'
    rw [← some.inj hb', hsame x hx]

/-- **A step of one cleanup** leaves the claims of the others alone. -/
theorem stepCleanup_claims {W : Watched} {db : Db} {front back : List Cleanup} {c : Cleanup} (hbooks : Consistent W db)
    (h : Claims db.blobs (front ++ c :: back)) (succeeds : Bool) :
    Claims (stepCleanup db succeeds c).1.blobs (front ++ ((stepCleanup db succeeds c).2.toList ++ back)) := by
  have hkept : BlobsKept db.blobs (stepCleanup db succeeds c).1.blobs := (stepCleanup_keeps hbooks succeeds c).since.blobs
  have hgone : Claims db.blobs (front ++ ([] ++ back)) := h.others
  cases c with
  | find blobId =>
    simp only [stepCleanup]
    cases hb : db.blobs.get blobId with
    | none => exact hgone
    | some b =>
      dsimp only
      split_ifs
      · refine Claims.insert h.others (fun k hk => ?_) fun x hx => ?_
        · cases hk
        · cases hx
          obtain rfl : b.id = blobId := Table.key_of_get hb
          refine ⟨SerialTable.lt_next_of_get hb, fun b' hb' => ?_⟩
          rw [← some.inj (hb.symm.trans hb')]
      · exact hgone
  | claim b =>
    cases succeeds with
    | false => exact hgone
    | true =>
      simp only [stepCleanup, if_true] at hkept ⊢
      cases hclaim : claimBlobCleanup db.blobs b.id with
      | none => exact hgone
      | some blobs =>
        rw [hclaim] at hkept
        refine h.claim hkept hclaim ?_ fun x hx => ?_
        · split_ifs
          all_goals rfl
        · split_ifs at hx
          · cases hx
          · exact (some.inj hx).symm
  | removeObject b =>
    have hheld := h.held_middle (c := .removeObject b) rfl
    refine Claims.insert h.others (fun k hk => ?_) fun y hy => ?_
    · have hkb : k = b.id := by
        split_ifs at hk
        all_goals exact (some.inj hk).symm
      rw [hkb]
      exact hheld
    · split_ifs at hy
      all_goals cases hy
  | delete blobId =>
    obtain ⟨hfree, hclaimed⟩ := h.held_middle (c := .delete blobId) rfl
    have hback : Claims db.blobs (front ++ .restore blobId :: back) := by
      refine h.others.insert (fun k hk => ?_) fun y hy => ?_
      · rw [← some.inj hk]
        exact ⟨hfree, hclaimed⟩
      · cases hy
    simp only [stepCleanup] at hkept ⊢
    split_ifs at hkept ⊢
    · cases hdelete : deleteBlobIfCleanupClaimed db.blobs blobId with
      | none => exact hback
      | some blobs =>
        rw [hdelete] at hkept
        unfold deleteBlobIfCleanupClaimed at hdelete
        split_ifs at hdelete
        cases hdelete
        refine h.others.frame hkept fun k hk y hy _ => ?_
        have hget : (db.blobs.deleteRows fun b => decide (b.id = blobId ∧ b.refCount = blobCleanupClaimedRefCount)).get k =
            (db.blobs.get k).filter fun b => !decide (b.id = blobId ∧ b.refCount = blobCleanupClaimedRefCount) :=
          Table.get_deleteWhere db.blobs.toTable _ k
        rw [hget, hy, filter_eq_some_iff]
        refine ⟨rfl, ?_⟩
        have hne : y.id ≠ blobId := by
          rw [Table.key_of_get hy]
          rintro rfl
          exact hfree hk
        simp [hne]
    · exact hback
  | restore blobId =>
    obtain ⟨hfree, _⟩ := h.held_middle (c := .restore blobId) rfl
    simp only [stepCleanup] at hkept ⊢
    split_ifs at hkept ⊢
    · cases hrestore : restoreBlobCleanupClaim db.blobs blobId with
      | none => exact hgone
      | some blobs =>
        rw [hrestore] at hkept
        unfold restoreBlobCleanupClaim at hrestore
        split_ifs at hrestore
        cases hrestore
        refine h.others.frame hkept fun k hk y hy _ => ?_
        rw [get_updateRefCounts, hy, map_some, if_neg]
        have hne : y.id ≠ blobId := by
          rw [Table.key_of_get hy]
          rintro rfl
          exact hfree hk
        simp [hne]
    · exact hgone

/-- **The object of a claimed row** belongs to no other row, where paths are keys: every row of it is claimed. -/
theorem Claims.object_free {blobs : Blobs} {cs : List Cleanup} {c : Cleanup} {policyId : ℕ} {path : String}
    (h : Claims blobs cs) (hc : c ∈ cs) (hobject : c.object = some (policyId, path))
    (hpaths : ∀ b ∈ blobs.rows, ∀ b' ∈ blobs.rows, b.policyId = b'.policyId → b.storagePath = b'.storagePath →
      b.storagePath.isSome → b = b') :
    ∀ b ∈ blobs.rows, b.policyId = policyId → b.storagePath = some path → b.refCount = blobCleanupClaimedRefCount := by
  intro b hb hpolicy hpath
  cases c with
  | removeObject x =>
    obtain ⟨y, hy, hclaimed⟩ := h.claimed x.id (mem_filterMap.mpr ⟨_, hc, rfl⟩)
    have hsame := (h.seen x (mem_filterMap.mpr ⟨_, hc, rfl⟩)).2 y hy
    obtain ⟨p, hp, hpair⟩ := map_eq_some_iff.mp hobject
    cases hpair
    have hyrow : y = b := by
      refine hpaths y (Table.mem_of_get hy) b hb ?_ ?_ ?_
      · rw [hsame]
        exact hpolicy.symm
      · rw [hsame, hpath]
        exact hp
      · rw [hsame]
        show x.storagePath.isSome
        rw [hp]
        rfl
    exact hyrow ▸ hclaimed
  | find _ | claim _ | delete _ | restore _ => cases hobject

end AsterDrive.Db
