import AsterDrive.Workspace.Purge
import Mathlib.Data.List.Perm.Subperm

/-!
# Maintenance — claims and reconciliation

A claim takes a row that nothing refers to, its ends take a claimed row, and the reconciling write
stores `current_blob_ref_count`. That function counts the files of a blob and the live revisions of
it that are not current; in an orderly ledger every file stands for one current revision, so the two
together are all live revisions (`currentBlobRefCount_eq`).
-/

namespace AsterDrive.Db

open List Option Table

variable {W : Watched} {s s' : Db} {k : ℕ} {u : Unit}

theorem onBlobsIf_ok {f : Blobs → Option Blobs} (hok : onBlobsIf f s = .ok (u, s')) :
    s' = s ∨ ∃ t', f s.blobs = some t' ∧ s' = { s with blobs := t' } := by
  unfold onBlobsIf at hok
  split at hok
  · rename_i t' ht
    cases hok
    exact .inr ⟨t', ht, rfl⟩
  · cases hok
    exact .inl rfl

theorem onBlobsIf_of {f : Blobs → Option Blobs} {blobs : Blobs} (h : f s.blobs = some blobs) :
    onBlobsIf f s = .ok ((), { s with blobs }) := by
  unfold onBlobsIf
  rw [h]

theorem Underway.recount (h : Consistent W s) {p : FileBlob → Bool} {g : FileBlob → ℤ}
    (hfit : ∀ b ∈ s.blobs.rows, p b = true → W.counts → b.refCount = refs s.revisions b.id ∨
        (b.refCount = blobCleanupClaimedRefCount ∧ refs s.revisions b.id = 0) →
      g b = refs s.revisions b.id ∨ (g b = blobCleanupClaimedRefCount ∧ refs s.revisions b.id = 0)) :
    Underway W s { s with blobs := updateRefCounts s.blobs p g } ∅ 0 0 := by
  refine h.blobs (kept_updateRefCounts ..) (fun hB => ⟨?_, ?_⟩) ?_
  · intro j b' hb'
    rw [get_updateRefCounts] at hb'
    obtain ⟨b, hb, rfl⟩ := map_eq_some_iff.mp hb'
    obtain rfl : b.id = j := key_of_get hb
    have hold := (h.balanced hB).row _ b hb
    simp only [Pi.zero_apply, add_zero, and_true] at hold ⊢
    split_ifs with hp
    · exact hfit b (mem_of_get hb) hp hB hold
    · exact hold
  · intro j hj
    rw [get_updateRefCounts, map_eq_none_iff] at hj
    exact (h.balanced hB).gone j hj
  · intro _ b hb hle
    have hlt := (updateRefCounts s.blobs p g).below b hb
    have hnext : (updateRefCounts s.blobs p g).next = s.blobs.next := rfl
    omega

theorem claimCleanup_keeps (h : Consistent W s) (hok : claimCleanup k s = .ok (u, s')) : Underway W s s' ∅ 0 0 := by
  rcases onBlobsIf_ok hok with rfl | ⟨t', ht, rfl⟩
  · exact h
  unfold claimBlobCleanup at ht
  split_ifs at ht
  cases ht
  refine Underway.recount h fun b _ hp _ hold => ?_
  rw [decide_eq_true_eq] at hp
  unfold blobCleanupClaimedRefCount at hold ⊢
  right
  omega

theorem restoreClaim_keeps (h : Consistent W s) (hok : restoreClaim k s = .ok (u, s')) : Underway W s s' ∅ 0 0 := by
  rcases onBlobsIf_ok hok with rfl | ⟨t', ht, rfl⟩
  · exact h
  unfold restoreBlobCleanupClaim at ht
  split_ifs at ht
  cases ht
  refine Underway.recount h fun b _ hp _ hold => ?_
  rw [decide_eq_true_eq] at hp
  have hpos := refs_nonneg s.revisions b.id
  unfold blobCleanupClaimedRefCount at hold hp ⊢
  left
  omega

theorem deleteClaimedBlob_keeps (h : Consistent W s) (hok : deleteClaimedBlob k s = .ok (u, s')) :
    Underway W s s' ∅ 0 0 := by
  rcases onBlobsIf_ok hok with rfl | ⟨t', ht, rfl⟩
  · exact h
  unfold deleteBlobIfCleanupClaimed at ht
  split_ifs at ht
  cases ht
  have hget : ∀ j, (s.blobs.deleteRows fun b =>
      decide (b.id = k ∧ b.refCount = blobCleanupClaimedRefCount)).get j =
      (s.blobs.get j).filter fun b =>
        !decide (b.id = k ∧ b.refCount = blobCleanupClaimedRefCount) :=
    fun j => get_deleteWhere s.blobs.toTable _ j
  refine h.blobs ⟨le_refl _, ?_⟩ (fun hB => ⟨?_, ?_⟩) ?_
  · intro j b _ hb
    rw [hget, filter_eq_some_iff] at hb
    exact ⟨b, hb.1, rfl⟩
  · intro j b hb
    rw [hget, filter_eq_some_iff] at hb
    exact (h.balanced hB).row j b hb.1
  · intro j hj
    rw [hget] at hj
    rcases hold : s.blobs.get j with _ | b
    · exact (h.balanced hB).gone j hold
    · rw [hold, filter_eq_none_iff] at hj
      have hclaimed := hj b rfl
      simp only [Bool.not_eq_eq_eq_not, Bool.not_true, Bool.not_eq_false, decide_eq_true_eq] at hclaimed
      have hpos := refs_nonneg s.revisions j
      unfold blobCleanupClaimedRefCount at hclaimed
      rcases (h.balanced hB).row j b hold with hrow | ⟨_, hzero, _⟩
      · rw [Pi.zero_apply] at hrow
        omega
      · exact ⟨hzero, rfl⟩
  · intro _ b hb hle
    have hlt := s.blobs.below b (mem_deleteWhere.mp hb).1
    omega

/-! ### Reconciliation -/

/-- A live revision of blob `k` that its history names as current. -/
def isCurrentRef (s : Db) (k : ℕ) (r : FileRevision) : Bool :=
  r.blobId = some k ∧ r.retired = false ∧
    (s.histories.get r.historyId).bind FileRevisionHistory.currentRevisionId = some r.id

/-- The file whose history the revision belongs to. -/
def fileOf (s : Db) (r : FileRevision) : Option ℕ := (s.histories.get r.historyId).bind FileRevisionHistory.fileId

/-- **Files stand for current revisions**, one for one. -/
theorem count_files (L : Ledger s.files s.histories s.revisions ∅) (k : ℕ) :
    s.files.rows.countP (fun f => f.blobId = k) = s.revisions.rows.countP (isCurrentRef s k) := by
  rw [countP_eq_length_filter, countP_eq_length_filter]
  have hperm : ((s.files.rows.filter fun f => f.blobId = k).map fun f => some f.id).Perm
      ((s.revisions.rows.filter (isCurrentRef s k)).map (fileOf s)) := by
    refine (perm_ext_iff_of_nodup ?_ ?_).mpr ?_
    · have hnd := s.files.unique.sublist ((filter_sublist (p := fun f => decide (f.blobId = k))).map File.id)
      have hmap := hnd.map (f := some) fun a b hab => some.inj hab
      rw [List.map_map] at hmap
      exact hmap
    · -- two current revisions of one file are the same
      have hrows : s.revisions.rows.Nodup := Nodup.of_map _ s.revisions.unique
      refine Nodup.map_on ?_ (hrows.filter _)
      intro x hx y hy hxy
      obtain ⟨hx, hxp⟩ := mem_filter.mp hx
      obtain ⟨hy, hyp⟩ := mem_filter.mp hy
      unfold isCurrentRef at hxp hyp
      rw [decide_eq_true_eq] at hxp hyp
      obtain ⟨hist, f, hh, hhf, _⟩ := L.file_of_live hx hxp.2.1
      obtain ⟨hist', f', hh', hhf', _⟩ := L.file_of_live hy hyp.2.1
      unfold fileOf at hxy
      rw [hh, hh', bind_some, bind_some, hhf, hhf'] at hxy
      have heq : hist = hist' := L.one hist (mem_of_get hh) hist' (mem_of_get hh') f.id hhf (hhf'.trans hxy.symm)
      rw [hh, bind_some] at hxp
      rw [hh', ← heq, bind_some, hxp.2.2] at hyp
      exact eq_of_key hx hy (some.inj hyp.2.2)
    · intro o
      rw [List.mem_map, List.mem_map]
      constructor
      · rintro ⟨f, hf, rfl⟩
        obtain ⟨hf, hk⟩ := mem_filter.mp hf
        obtain ⟨hist, hh, hhf⟩ := L.kept f hf (Set.notMem_empty _)
        obtain ⟨r, l, hl, hp⟩ := L.chain f hf hist hh hhf
        obtain ⟨hr, hrh, hret⟩ := (hl.mem r).mp mem_cons_self
        have hget : s.histories.get r.historyId = some hist := get_eq_some_iff.mpr ⟨hh, hrh.symm⟩
        refine ⟨r, mem_filter.mpr ⟨hr, decide_eq_true ⟨?_, hret, ?_⟩⟩, ?_⟩
        · rw [hp.blob, of_decide_eq_true hk]
        · rw [hget, bind_some, hl.head]
          rfl
        · unfold fileOf
          rw [hget, bind_some, hhf]
      · rintro ⟨r, hr, rfl⟩
        obtain ⟨hr, hp⟩ := mem_filter.mp hr
        unfold isCurrentRef at hp
        rw [decide_eq_true_eq] at hp
        obtain ⟨hist, f, hh, hhf, hf, _⟩ := L.file_of_live hr hp.2.1
        rw [hh, bind_some] at hp
        obtain ⟨r', l, hl, hproj⟩ := L.chain f (mem_of_get hf) hist (mem_of_get hh) hhf
        -- the head of the chain is this revision
        have hrr : r' = r := by
          have hhead := hl.head
          rw [hp.2.2] at hhead
          exact (eq_of_key hr ((hl.mem r').mp mem_cons_self).1 (some.inj hhead)).symm
        rw [hrr] at hproj
        refine ⟨f, mem_filter.mpr ⟨mem_of_get hf, decide_eq_true ?_⟩, ?_⟩
        · exact some.inj (hproj.blob.symm.trans hp.1)
        · unfold fileOf
          rw [hh, bind_some, hhf]
  have hlen := hperm.length_eq
  rw [length_map, length_map] at hlen
  exact hlen

/-- **Reconciliation writes the number of live revisions.** -/
theorem currentBlobRefCount_eq (L : Ledger s.files s.histories s.revisions ∅) (k : ℕ) :
    currentBlobRefCount s k = refs s.revisions k := by
  unfold currentBlobRefCount countNonCurrentBlobRefs
  rw [count_files L k]
  unfold refs total
  have hcount : ∀ l : List FileRevision, (∀ r ∈ l, r ∈ s.revisions.rows) →
      ((l.countP (isCurrentRef s k) : ℤ) + (l.countP fun r => decide (r.blobId = some k ∧
        r.retired = false ∧ ∃ h ∈ s.histories.rows, h.id = r.historyId ∧
          h.currentRevisionId ≠ some r.id) : ℕ)) = (l.map (liveRef k)).sum := by
    intro l hl
    induction l with
    | nil => rfl
    | cons r l ih =>
      have hrest := ih fun x hx => hl x (mem_cons_of_mem _ hx)
      obtain ⟨hist, hh, hid, _⟩ := L.filed r (hl r mem_cons_self)
      have hget : s.histories.get r.historyId = some hist := get_eq_some_iff.mpr ⟨hh, hid⟩
      -- a live revision of the blob is current or not, never both
      have hone : (if isCurrentRef s k r = true then (1 : ℤ) else 0) +
          (if decide (r.blobId = some k ∧ r.retired = false ∧ ∃ h ∈ s.histories.rows,
            h.id = r.historyId ∧ h.currentRevisionId ≠ some r.id) = true then 1 else 0) =
          liveRef k r := by
        have hex : (∃ h ∈ s.histories.rows, h.id = r.historyId ∧
            h.currentRevisionId ≠ some r.id) ↔ hist.currentRevisionId ≠ some r.id := by
          constructor
          · rintro ⟨x, hx, hxid, hne⟩
            rwa [eq_of_key hx hh (hxid.trans hid.symm)] at hne
          · exact fun hne => ⟨hist, hh, hid, hne⟩
        unfold isCurrentRef liveRef
        simp only [hget, bind_some, decide_eq_true_eq, hex]
        by_cases hb : r.blobId = some k
        · by_cases hr : r.retired = false
          · by_cases hc : hist.currentRevisionId = some r.id
            all_goals simp [hb, hr, hc]
          · simp [hr]
        · simp [hb]
      rw [map_cons, sum_cons, ← hrest, ← hone, countP_cons, countP_cons]
      push_cast
      omega
  exact hcount s.revisions.rows fun r hr => hr

theorem reconcile_keeps (h : Consistent W s) {claimIsStale : Bool}
    (hok : reconcileBlob k claimIsStale s = .ok (u, s')) : Underway W s s' ∅ 0 0 := by
  unfold reconcileBlob at hok
  split at hok
  · cases hok
    exact h
  · split_ifs at hok
    · cases hok
      exact h
    · cases hok
      exact h
    · cases hok
      refine Underway.recount h fun b _ hp _ _ => ?_
      rw [decide_eq_true_eq] at hp
      rw [hp]
      exact .inl (currentBlobRefCount_eq h.ledger k)

end AsterDrive.Db
