import AsterDrive.Storage.ForcedPurgeRaces

/-!
# Storage/ForcedPurgeResume — attempts that are cut off, and the one that ends the purge

`Kept` is what every attempt leaves: the files that are gone are those that were affected and no longer are, and the
cursor is in front of every file that still is. `Phased` adds what the place of an attempt knows. Both survive a
cut-off (`Recoverable`) if the policy is still there, and if the cursor has moved or the impact is still the confirmed one:
with a cursor at zero the next attempt compares the impact again, and what has been removed meanwhile locks it out.

An attempt that nothing interrupts keeps both, never fails, and has less and less to do (`ahead`), so it ends
(`purge_resumable`).
-/

namespace AsterDrive.Storage.ForcedPurge

open Db List Table Keyset

/-! ### What is left to remove -/

section Counting

variable {db db' : Db} {policyId k : ℕ} {ids : List ℕ} {scope : WorkspaceResourceScope} {files : List File}

def liveCount (db : Db) : ℕ := db.revisions.affected fun r => r.retired = false

def affectedCount (db : Db) (policyId : ℕ) : ℕ := db.files.affected fun f => affects db policyId f.id

def blobCount (db : Db) (policyId : ℕ) : ℕ := db.blobs.affected fun b => b.policyId = policyId

theorem blobCount_le (h : ∀ k b', db'.blobs.get k = some b' → ∃ b, db.blobs.get k = some b ∧ b'.policyId = b.policyId) :
    blobCount db' policyId ≤ blobCount db policyId := by
  have hids : ∀ l : List FileBlob, l.length = (l.map FileBlob.id).length := fun l => (length_map _).symm
  unfold blobCount affected
  rw [countP_eq_length_filter, countP_eq_length_filter, hids, hids (db.blobs.rows.filter _)]
  refine (subperm_of_subset ?_ ?_).length_le
  · exact db'.blobs.unique.sublist (List.filter_sublist.map FileBlob.id)
  · intro k hk
    obtain ⟨b', hb', rfl⟩ := mem_map.mp hk
    obtain ⟨hb', hp'⟩ := mem_filter.mp hb'
    obtain ⟨b, hb, hp⟩ := h _ b' (get_of_mem hb')
    refine mem_map.mpr ⟨b, mem_filter.mpr ⟨mem_of_get hb, ?_⟩, key_of_get hb⟩
    rw [decide_eq_true_eq] at hp' ⊢
    exact hp ▸ hp'

theorem Swept.counts (h : Swept db db') : liveCount db' = liveCount db ∧
    affectedCount db' policyId = affectedCount db policyId ∧ blobCount db' policyId ≤ blobCount db policyId := by
  refine ⟨?_, ?_, blobCount_le fun k b' hb' => ?_⟩
  · unfold liveCount
    rw [h.revisions]
  · unfold affectedCount
    rw [h.files]
    refine le_antisymm (affected_mono fun f _ hf => ?_) (affected_mono fun f _ hf => ?_)
    · exact h.affects.mp hf
    · exact h.affects.mpr hf
  · obtain ⟨b, hb, hp, _⟩ := h.kept k b' hb'
    exact ⟨b, hb, hp⟩

theorem length_countRefs (refs : List (ℕ × ℕ)) : (countRefs refs).length ≤ refs.length := by
  have hadd : ∀ (k : ℕ) (d : ℤ) (m : List (ℕ × ℤ)), (addDelta k d m).length ≤ m.length + 1 := by
    intro k d m
    induction m with
    | nil => exact le_refl _
    | cons e m ih =>
      unfold addDelta
      split_ifs
      · exact le_refl _
      · exact Nat.le_succ _
      · exact Nat.succ_le_succ ih
  have main : ∀ (l : List (ℕ × ℕ)) (m : List (ℕ × ℤ)),
      (l.foldl (fun counts ref => addDelta ref.1 1 counts) m).length ≤ m.length + l.length := by
    intro l
    induction l with
    | nil =>
      intro m
      exact le_refl _
    | cons ref l ih =>
      intro m
      have hhead := hadd ref.1 1 m
      have htail := ih (addDelta ref.1 1 m)
      rw [foldl_cons, length_cons]
      omega
  have hmain := main refs []
  rw [length_nil, zero_add] at hmain
  exact hmain

theorem liveCount_purged (hne : files.isEmpty = false) (hok : purgeFilesOn scope files db = .ok (ids, db')) :
    liveCount db' + (heldBlobs db ids).length ≤ liveCount db := by
  obtain ⟨_, _, taken, s1, s2, blobs, hret, hdel, _, hcharge⟩ := purgeFilesOn_ok hne hok
  have hrevisions : db'.revisions = s1.revisions := by
    unfold updateStorageUsedFor at hcharge
    split at hcharge
    · cases hcharge
    cases hcharge
    unfold deleteFiles at hdel
    cases hdel
    rfl
  have hheld : (heldBlobs db ids).length ≤ (retiredBy db ids).length := by
    unfold heldBlobs
    rw [hret]
    dsimp only
    rw [length_map]
    have hcount := length_countRefs taken
    rw [taken_eq hret] at hcount ⊢
    exact le_trans hcount (length_filterMap_le _ _)
  have hsum := total_retire (g := fun r => if r.retired = false then (1 : ℤ) else 0) hret fun r hr => by simp [hr]
  have hones : ((retiredBy db ids).map fun r => if r.retired = false then (1 : ℤ) else 0).sum =
      (retiredBy db ids).length := by
    have hall : ∀ r ∈ retiredBy db ids, (if r.retired = false then (1 : ℤ) else 0) = 1 := by
      intro r hr
      unfold retiredBy at hr
      have hp := (mem_filter.mp hr).2
      rw [decide_eq_true_eq] at hp
      exact if_pos hp.2
    rw [map_congr_left hall]
    simp
  have hlive : ∀ s : Db, s.revisions.total (fun r => if r.retired = false then (1 : ℤ) else 0) = liveCount s := by
    intro s
    unfold liveCount affected total
    induction s.revisions.rows with
    | nil => rfl
    | cons r l ih =>
      rw [map_cons, sum_cons, ih, countP_cons]
      split_ifs with h1 h2 h2
      · push_cast
        omega
      · simp [h1] at h2
      · simp [h1] at h2
      · simp
  have hsame : liveCount s1 = liveCount db' := by
    unfold liveCount
    rw [hrevisions]
  rw [hones, hlive, hlive] at hsum
  omega

theorem blobCount_purged (h : Purged db db' ids) : blobCount db' policyId ≤ blobCount db policyId := by
  refine blobCount_le fun k b' hb' => ?_
  have hsame := h.blobs k
  rw [hb', Option.map_some] at hsame
  obtain ⟨b, hb, hp⟩ := Option.map_eq_some_iff.mp hsame.symm
  exact ⟨b, hb, hp.symm⟩

theorem affectedCount_purged (h : Purged db db' ids) {f : File} (hf : f ∈ db.files.rows) (haffects : affects db policyId f.id)
    (hin : f.id ∈ ids) : affectedCount db' policyId < affectedCount db policyId := by
  unfold affectedCount affected
  rw [h.files]
  have hmono : (db.files.rows.filter fun f => f.id ∉ ids).countP (fun f => affects db' policyId f.id) ≤
      (db.files.rows.filter fun f => f.id ∉ ids).countP fun f => affects db policyId f.id :=
    countP_mono_left fun g _ hg => ((h.affects _ _).mp hg).1
  have hsplit := countP_eq_countP_filter_add db.files.rows (fun f => affects db policyId f.id) fun f => f.id ∉ ids
  have hpos : 0 < (db.files.rows.filter fun f => !decide (f.id ∉ ids)).countP fun f => affects db policyId f.id := by
    refine countP_pos_iff.mpr ⟨f, mem_filter.mpr ⟨hf, ?_⟩, haffects⟩
    simpa using hin
  omega

end Counting

/-! ### What nothing refers to -/

section Ledger

variable {db db' : Db} {policyId k : ℕ} {W : Watched}

theorem affects_of_live (h : Consistent W db) {r : FileRevision} (hr : r ∈ db.revisions.rows) (hlive : r.retired = false)
    {b : FileBlob} (hb : db.blobs.get k = some b) (hk : r.blobId = some k) :
    ∃ i, affects db b.policyId i := by
  obtain ⟨hist, hh, hid, hfile⟩ := h.ledger.filed r hr
  obtain ⟨i, hi⟩ := hfile hlive
  exact ⟨i, affects_iff.mpr ⟨hist, hh, hi, r, hr, hid.symm, hlive, inPolicy_iff.mpr ⟨k, b, hk, hb, rfl⟩⟩⟩

theorem unreferenced (h : Consistent W db) (hnone : ∀ i, ¬ affects db policyId i) {b : FileBlob}
    (hb : db.blobs.get k = some b) (hpolicy : b.policyId = policyId) :
    (∀ f ∈ db.files.rows, f.blobId ≠ k) ∧ ∀ r ∈ db.revisions.rows, r.blobId ≠ some k := by
  have hrevisions : ∀ r ∈ db.revisions.rows, r.blobId ≠ some k := by
    intro r hr hk
    have hlive : r.retired = false := by
      rw [h.ledger.content r hr, hk]
      rfl
    obtain ⟨i, hi⟩ := affects_of_live h hr hlive hb hk
    exact hnone i (hpolicy ▸ hi)
  refine ⟨fun f hf hk => ?_, hrevisions⟩
  obtain ⟨hist, hh, hhf⟩ := h.ledger.kept f hf (Set.notMem_empty _)
  obtain ⟨r, l, hl, hp⟩ := h.ledger.chain f hf hist hh hhf
  exact hrevisions r ((hl.mem r).mp mem_cons_self).1 (hk ▸ hp.blob)

theorem file_of_affects (h : Consistent W db) {i : ℕ} (hi : affects db policyId i) : ∃ f ∈ db.files.rows, f.id = i := by
  obtain ⟨hist, hh, hhf, _⟩ := affects_iff.mp hi
  exact (h.ledger.owned hist hh i hhf).2

theorem deleteBlobById_keeps (h : Consistent W db) (hok : Migration.deleteBlobById db k = .ok db') :
    Consistent W db' := by
  unfold Migration.deleteBlobById at hok
  split_ifs at hok with hreferenced
  cases hok
  have hget : ∀ j, (db.blobs.deleteRows fun b => decide (b.id = k)).get j =
      (db.blobs.get j).filter fun b => !decide (b.id = k) :=
    fun j => get_deleteWhere db.blobs.toTable _ j
  have hkeep : Underway W db { db with blobs := db.blobs.deleteRows fun b => b.id = k } ∅ 0 0 := by
    refine h.blobs ⟨le_refl _, ?_⟩ (fun hB => ⟨?_, ?_⟩) ?_
    · intro j b _ hb
      rw [hget, Option.filter_eq_some_iff] at hb
      exact ⟨b, hb.1, rfl⟩
    · intro j b hb
      rw [hget, Option.filter_eq_some_iff] at hb
      exact (h.balanced hB).row j b hb.1
    · intro j hj
      rw [hget] at hj
      rcases hold : db.blobs.get j with _ | b
      · exact (h.balanced hB).gone j hold
      · rw [hold, Option.filter_eq_none_iff] at hj
        have hjk : b.id = k := by simpa using hj b rfl
        rw [key_of_get hold] at hjk
        refine ⟨?_, rfl⟩
        -- a revision that refers to the row would have kept it
        by_contra hrefs
        refine hreferenced (.inr ?_)
        obtain ⟨r, hr, hne⟩ : ∃ r ∈ db.revisions.rows, liveRef j r ≠ 0 := by
          by_contra hall
          refine hrefs (sum_eq_zero fun x hx => ?_)
          obtain ⟨r, hr, rfl⟩ := mem_map.mp hx
          by_contra hne
          exact hall ⟨r, hr, hne⟩
        refine any_eq_true.mpr ⟨r, hr, decide_eq_true ?_⟩
        unfold liveRef at hne
        split_ifs at hne with hlive
        · exact hjk ▸ hlive.2
        · exact absurd rfl hne
    · intro _ b hb hle
      have hlt := db.blobs.below b (mem_deleteWhere.mp hb).1
      omega
  exact hkeep.finish

end Ledger

/-! ### Batches of owned files -/

section Owned

variable {files : List File}

/-- A batch is not empty, and its files are of its workspace. -/
def ScopedFileBatch.Scoped (b : ScopedFileBatch) : Prop := b.files ≠ [] ∧ ∀ f ∈ b.files, f.workspace = some b.scope

theorem scoped_joinBatch {batches : List ScopedFileBatch} {file : File} {scope : WorkspaceResourceScope}
    (h : ∀ b ∈ batches, b.Scoped) (hfile : file.workspace = some scope) :
    ∀ b ∈ joinBatch batches file scope, b.Scoped := by
  have hone : (⟨scope, [file]⟩ : ScopedFileBatch).Scoped := by
    refine ⟨cons_ne_nil _ _, fun f hf => ?_⟩
    rw [mem_singleton.mp hf]
    exact hfile
  unfold joinBatch
  cases hlast : batches.getLast? with
  | none =>
    intro b hb
    rw [mem_singleton.mp hb]
    exact hone
  | some last =>
    dsimp only
    split_ifs with hscope
    · intro b hb
      rcases mem_append.mp hb with hb | hb
      · exact h b (dropLast_subset _ hb)
      · rw [mem_singleton.mp hb]
        refine ⟨by simp, fun f hf => ?_⟩
        rcases mem_append.mp hf with hf | hf
        · exact (h last (mem_of_getLast? hlast)).2 f hf
        · rw [mem_singleton.mp hf, hscope]
          exact hfile
    · intro b hb
      rcases mem_append.mp hb with hb | hb
      · exact h b hb
      · rw [mem_singleton.mp hb]
        exact hone

/-- **Files that all have an owner fall into batches.** -/
theorem batches_of_owned (h : ∀ f ∈ files, f.workspace ≠ none) :
    ∃ batches, contiguousScopeBatches files = .ok batches ∧ ∀ b ∈ batches, b.Scoped := by
  have main : ∀ (l : List File) (done : List ScopedFileBatch), (∀ f ∈ l, f.workspace ≠ none) →
      (∀ b ∈ done, b.Scoped) → ∃ batches, l.foldlM
        (fun batches file => joinBatch batches file <$> resourceScopeForFile file) done = .ok batches ∧
          ∀ b ∈ batches, b.Scoped := by
    intro l
    induction l with
    | nil =>
      intro done _ hdone
      exact ⟨done, rfl, hdone⟩
    | cons file l ih =>
      intro done hl hdone
      obtain ⟨scope, hscope⟩ := Option.ne_none_iff_exists'.mp (hl file mem_cons_self)
      obtain ⟨batches, hok, hscoped⟩ := ih (joinBatch done file scope) (fun f hf => hl f (mem_cons_of_mem _ hf))
        (scoped_joinBatch hdone hscope)
      refine ⟨batches, ?_, hscoped⟩
      rw [foldlM_cons]
      refine bind_ok_iff.mpr ⟨_, map_ok_iff.mpr ⟨scope, ?_, rfl⟩, hok⟩
      unfold resourceScopeForFile
      rw [hscope]
  exact main files [] h fun b hb => nomatch hb

theorem lastFileId_mem {b : ScopedFileBatch} (hb : b.files ≠ []) : ∃ f ∈ b.files, b.lastFileId = f.id := by
  obtain ⟨f, hf⟩ := Option.isSome_iff_exists.mp (getLast?_isSome.mpr hb)
  refine ⟨f, mem_of_getLast? hf, ?_⟩
  unfold ScopedFileBatch.lastFileId
  rw [hf]
  rfl

end Owned

/-! ### The invariant -/

/-- The cursor that an attempt starts from. -/
def World.cursor (x : World) : ℕ := (x.runtime.getD {}).lastProcessedFileId

def Phase.isActive : Phase → Bool
  | .idle | .failed _ => false
  | _ => true

section Invariant

variable (cfg : Payload ImpactIdentity) (W : Watched) (x₀ : World) (now₀ : ℕ)

/-- Every affected file has an owner whose account can be lowered, by nothing or by what the file frees. -/
def Owned (db : Db) : Prop :=
  ∀ f ∈ db.files.rows, affects db cfg.policyId f.id →
    ∃ w u, f.workspace = some w ∧ db.usage.get w = some u ∧ (u.lowers ∨ frees db f.id)

/-- A confirmed purge before its first attempt. The books are in order, ids are positive and counters fit their
column. -/
structure Confirmed : Prop where
  books : Consistent W x₀.db
  counts : W.counts
  fits : ∀ b ∈ x₀.db.blobs.rows, b.refCount ≤ i32Max
  files : ∀ f ∈ x₀.db.files.rows, 0 < f.id
  blobs : ∀ b ∈ x₀.db.blobs.rows, 0 < b.id
  policy : ∃ policy, x₀.policies.get cfg.policyId = some policy ∧ policy.updatedAt = cfg.policyUpdatedAt ∧
    cfg.digest (previewOf x₀ policy now₀) = cfg.impactDigest
  targets : x₀.targets cfg.policyId = 0
  fresh : x₀.runtime = none ∧ x₀.succeeded = false
  owned : Owned cfg x₀.db

/-- The impact is the confirmed one, and as many sessions are active from then on. -/
structure Unchanged (x : World) : Prop where
  blobs : summarizeBlobsByPolicy x.db cfg.policyId = summarizeBlobsByPolicy x₀.db cfg.policyId
  impact : summarizePurgeImpact x.db x.shares cfg.policyId = summarizePurgeImpact x₀.db x₀.shares cfg.policyId
  sessions : ∀ now, now₀ ≤ now → x.activeSessions cfg.policyId now = x₀.activeSessions cfg.policyId now

/-- Time passes, but no session of the policy expires. -/
def Steady (now : ℕ) : Prop := now₀ ≤ now ∧ x₀.activeSessions cfg.policyId now = x₀.activeSessions cfg.policyId now₀

instance (now : ℕ) : Decidable (Steady cfg x₀ now₀ now) := inferInstanceAs (Decidable (_ ∧ _))

def NoSessions (x : World) : Prop := ∀ s ∈ x.sessions.rows, s.policyId ≠ cfg.policyId

def Unaffected (x : World) : Prop := ∀ i, ¬ affects x.db cfg.policyId i

def NoBlobs (x : World) : Prop := ∀ b ∈ x.db.blobs.rows, b.policyId ≠ cfg.policyId

/-- What every attempt leaves. -/
structure Kept (x : World) : Prop where
  books : Consistent W x.db
  files : x.db.files.rows =
    x₀.db.files.rows.filter fun f => affects x.db cfg.policyId f.id ∨ affects x₀.db cfg.policyId f.id = false
  shrinks : ∀ i, affects x.db cfg.policyId i → affects x₀.db cfg.policyId i
  cursor : ∀ i, affects x.db cfg.policyId i → x.cursor < i
  targets : x.targets cfg.policyId = 0
  owned : Owned cfg x.db
  positive : ∀ b ∈ x.db.blobs.rows, 0 < b.id
  fits : ∀ b ∈ x.db.blobs.rows, b.refCount ≤ i32Max
  abandoned : x.cursor ≠ 0 → NoSessions cfg x

/-- The rest of a page, behind the file `last`: its files are affected and in order, and no other affected file is in
front of the last one. -/
structure Paged (x : World) (last : ℕ) (batches : List ScopedFileBatch) : Prop where
  ascending : ((filesOf batches).map File.id).Pairwise (· < ·)
  rows : ∀ f ∈ filesOf batches, f ∈ x.db.files.rows ∧ affects x.db cfg.policyId f.id
  grouped : ∀ b ∈ batches, b.Scoped
  first : ∀ i, affects x.db cfg.policyId i →
    last < i ∧ (i ∈ (filesOf batches).map File.id ∨ ∀ f ∈ filesOf batches, f.id < i)

/-- Rows of the policy that wait to be removed. -/
def Queued (x : World) (blobIds : List ℕ) : Prop :=
  blobIds.Nodup ∧ ∀ k ∈ blobIds, ∃ b, x.db.blobs.get k = some b ∧ b.policyId = cfg.policyId

/-- The policy is there, and the attempt's cursor is the persisted one. -/
structure Alive (x : World) (t : Worker) : Prop where
  policies : x.policies = x₀.policies
  running : x.succeeded = false
  cursor : t.runtime.lastProcessedFileId = x.cursor

/-- An attempt that has validated or need not: nothing is affected any more. -/
structure Sweeping (x : World) (t : Worker) : Prop where
  alive : Alive x₀ x t
  sessions : NoSessions cfg x
  unaffected : Unaffected cfg x

/-- The purge is done. -/
structure Emptied (x : World) : Prop where
  sessions : NoSessions cfg x
  unaffected : Unaffected cfg x
  blobs : NoBlobs cfg x
  gone : x.policies.get cfg.policyId = none

/-- An attempt that validates has read what was confirmed. -/
structure Validating (x : World) (t : Worker) : Prop where
  alive : Alive x₀ x t
  start : x.cursor = 0
  unchanged : Unchanged cfg x₀ now₀ x

/-- What the place of an attempt knows. -/
def Phased (x : World) (t : Worker) : Prop :=
  match t.phase with
  | .idle | .failed _ =>
    (x.succeeded = true ∧ Emptied cfg x) ∨
      (x.succeeded = false ∧ x.policies = x₀.policies ∧ (x.cursor = 0 → Unchanged cfg x₀ now₀ x))
  | .checkPolicy => Alive x₀ x t ∧ (x.cursor = 0 → Unchanged cfg x₀ now₀ x)
  | .previewPolicy => Validating cfg x₀ now₀ x t
  | .previewBlobs policy => Validating cfg x₀ now₀ x t ∧ x₀.policies.get cfg.policyId = some policy
  | .previewImpact policy blobs => Validating cfg x₀ now₀ x t ∧ x₀.policies.get cfg.policyId = some policy ∧
    blobs = summarizeBlobsByPolicy x₀.db cfg.policyId
  | .previewTargets policy blobs impact => Validating cfg x₀ now₀ x t ∧ x₀.policies.get cfg.policyId = some policy ∧
    blobs = summarizeBlobsByPolicy x₀.db cfg.policyId ∧ impact = summarizePurgeImpact x₀.db x₀.shares cfg.policyId
  | .previewSessions policy blobs impact targets => Validating cfg x₀ now₀ x t ∧ x₀.policies.get cfg.policyId = some policy ∧
    blobs = summarizeBlobsByPolicy x₀.db cfg.policyId ∧ impact = summarizePurgeImpact x₀.db x₀.shares cfg.policyId ∧
      targets = 0
  | .findSessions => Alive x₀ x t
  | .abandon session rest => Alive x₀ x t ∧ ∀ s ∈ x.sessions.rows, s.policyId = cfg.policyId → s.id ∈ session :: rest
  | .list => Alive x₀ x t ∧ NoSessions cfg x
  | .load fileIds => Alive x₀ x t ∧ NoSessions cfg x ∧ fileIds = listFileIds x.db cfg.policyId x.cursor ∧ fileIds ≠ []
  | .purge batch rest => Alive x₀ x t ∧ NoSessions cfg x ∧ Paged cfg x x.cursor (batch :: rest)
  | .settle lastFileId _ _ rest => Alive x₀ x t ∧ NoSessions cfg x ∧ Paged cfg x lastFileId rest
  | .sweep | .persistSweep => Sweeping cfg x₀ x t
  | .countFiles blobId rest | .deleteBlob blobId rest => Sweeping cfg x₀ x t ∧ Queued cfg x (blobId :: rest)
  | .countRevisions blobId currentRefs rest => Sweeping cfg x₀ x t ∧ Queued cfg x (blobId :: rest) ∧ currentRefs = 0
  | .findPolicy | .countBlobs | .countTargets | .countSessions | .deletePolicy => Sweeping cfg x₀ x t ∧ NoBlobs cfg x
  | .markSucceeded => x.succeeded = false ∧ Emptied cfg x

/-! ### What an attempt has ahead of it -/

/-- The attempt compares the impact. -/
def Phase.validates : Phase → Bool
  | .checkPolicy | .previewPolicy | .previewBlobs _ | .previewImpact _ _ | .previewTargets _ _ _
  | .previewSessions _ _ _ _ => true
  | _ => false

/-- The attempt deletes the policy. -/
def Phase.finishes : Phase → Bool
  | .findPolicy | .countBlobs | .countTargets | .countSessions | .deletePolicy => true
  | _ => false

def Phase.rank (sessions : ℕ) : Phase → ℕ
  | .idle | .failed _ => 0
  | .checkPolicy => sessions + 21
  | .previewPolicy => sessions + 20
  | .previewBlobs _ => sessions + 19
  | .previewImpact _ _ => sessions + 18
  | .previewTargets _ _ _ => sessions + 17
  | .previewSessions _ _ _ _ => sessions + 16
  | .findSessions => sessions + 15
  | .abandon _ rest => rest.length + 15
  | .list => 13
  | .load _ => 12
  | .purge _ _ => 11
  | .settle _ _ cleanups _ => (cleanups.map Cleanup.cost).sum + 14
  | .persistSweep => 11
  | .sweep => 10
  | .countFiles _ _ => 9
  | .countRevisions _ _ _ => 8
  | .deleteBlob _ _ => 7
  | .findPolicy => 6
  | .countBlobs => 5
  | .countTargets => 4
  | .countSessions => 3
  | .deletePolicy => 2
  | .markSucceeded => 1

/-- The content that is left to remove. -/
def weight (db : Db) (policyId : ℕ) : ℕ := 8 * affectedCount db policyId + 6 * liveCount db + 8 * blobCount db policyId

def ahead (y : World × Worker) : ℕ :=
  if y.2.phase.isActive then weight y.1.db cfg.policyId + y.2.phase.rank (y.1.sessionCount cfg.policyId) else 0

/-- A step that an attempt makes on its way to the end. -/
structure Advances (x : World) (t : Worker) (x' : World) (t' : Worker) : Prop where
  kept : Kept cfg W x₀ x'
  phased : Phased cfg x₀ now₀ x' t'
  onward : t'.phase.isActive ∨ (x'.succeeded = true ∧ t'.phase = .idle)
  less : ahead cfg (x', t') < ahead cfg (x, t)

end Invariant

/-! ### The steps of an attempt -/

section Steps

variable {cfg : Payload ImpactIdentity} {W : Watched} {x₀ x x' : World} {now₀ now : ℕ} {t t' : Worker}

theorem nextBatch_onward (rest : List ScopedFileBatch) (n : ℕ) :
    (nextBatch rest).isActive ∧ (nextBatch rest).rank n ≤ 13 := by
  cases rest with
  | nil => exact ⟨rfl, le_refl _⟩
  | cons batch rest =>
    refine ⟨rfl, ?_⟩
    show 11 ≤ 13
    omega

theorem nextBlob_onward (rest : List ℕ) (n : ℕ) : (nextBlob rest).isActive ∧ (nextBlob rest).rank n ≤ 11 := by
  cases rest with
  | nil => exact ⟨rfl, le_refl _⟩
  | cons k rest =>
    refine ⟨rfl, ?_⟩
    show 9 ≤ 11
    omega

theorem nextSession_onward (rest : List String) (n : ℕ) :
    (nextSession rest).isActive ∧ (nextSession rest).rank n ≤ rest.length + 14 := by
  cases rest with
  | nil =>
    refine ⟨rfl, ?_⟩
    show 13 ≤ 14
    omega
  | cons session rest =>
    refine ⟨rfl, ?_⟩
    show rest.length + 15 ≤ rest.length + 1 + 14
    omega

theorem Confirmed.kept (h₀ : Confirmed cfg W x₀ now₀) : Kept cfg W x₀ x₀ := by
  have hcursor : x₀.cursor = 0 := by
    unfold World.cursor
    rw [h₀.fresh.1]
    rfl
  refine ⟨h₀.books, ?_, fun _ h => h, ?_, h₀.targets, h₀.owned, h₀.blobs, h₀.fits, ?_⟩
  · refine (filter_eq_self.mpr fun f _ => ?_).symm
    rw [decide_eq_true_eq]
    cases affects x₀.db cfg.policyId f.id
    · exact .inr rfl
    · exact .inl rfl
  · intro i hi
    obtain ⟨f, hf, rfl⟩ := file_of_affects h₀.books hi
    rw [hcursor]
    exact h₀.files f hf
  · intro hne
    exact absurd hcursor hne

theorem ahead_lt {phase : Phase} (hphase : t.phase = phase) (hactive' : t'.phase.isActive)
    (hless : weight x'.db cfg.policyId + t'.phase.rank (x'.sessionCount cfg.policyId) <
      weight x.db cfg.policyId + phase.rank (x.sessionCount cfg.policyId))
    (hactive : phase.isActive) : ahead cfg (x', t') < ahead cfg (x, t) := by
  subst hphase
  unfold ahead
  rw [if_pos hactive', if_pos hactive]
  exact hless

section

variable (h : Kept cfg W x₀ x)
include h

theorem Kept.fewer (hdb : x'.db = x.db) (hruntime : x'.cursor = x.cursor)
    (htargets : x'.placementTargets = x.placementTargets) (hsessions : NoSessions cfg x → NoSessions cfg x') :
    Kept cfg W x₀ x' := by
  refine ⟨?_, ?_, ?_, ?_, ?_, ?_, ?_, ?_, ?_⟩
  · rw [hdb]
    exact h.books
  · rw [hdb]
    exact h.files
  · rw [hdb]
    exact h.shrinks
  · rw [hdb, hruntime]
    exact h.cursor
  · unfold World.targets
    rw [htargets]
    exact h.targets
  · rw [hdb]
    exact h.owned
  · rw [hdb]
    exact h.positive
  · rw [hdb]
    exact h.fits
  · rw [hruntime]
    exact fun hne => hsessions (h.abandoned hne)

theorem Kept.swept {db : Db} (hswept : Swept x.db db) (hbooks : Consistent W db)
    (husage : db.usage = x.db.usage) : Kept cfg W x₀ { x with db } := by
  have hiff : ∀ i, affects db cfg.policyId i = affects x.db cfg.policyId i := by
    intro i
    rw [Bool.eq_iff_iff]
    exact hswept.affects
  refine ⟨hbooks, ?_, fun i hi => h.shrinks i (hiff i ▸ hi), fun i hi => h.cursor i (hiff i ▸ hi), h.targets, ?_, ?_,
    ?_, h.abandoned⟩
  · show db.files.rows = _
    rw [hswept.files, h.files]
    refine filter_congr fun f _ => ?_
    rw [hiff]
  · intro f hf hi
    obtain ⟨w, u, hw, hu, hlowers⟩ := h.owned f (hswept.files ▸ hf) (hiff f.id ▸ hi)
    refine ⟨w, u, hw, husage ▸ hu, hlowers.imp_right fun hfrees => ?_⟩
    unfold frees
    rw [hswept.histories, hswept.revisions]
    exact hfrees
  · intro b' hb'
    obtain ⟨b, hb, _⟩ := hswept.kept b'.id b' (get_of_mem hb')
    rw [← key_of_get hb]
    exact h.positive b (mem_of_get hb)
  · intro b' hb'
    obtain ⟨b, hb, _, hle⟩ := hswept.kept b'.id b' (get_of_mem hb')
    exact le_trans hle (max_le (h.fits b (mem_of_get hb)) (by decide))

theorem Advances.read {phase : Phase} (hphase : t.phase = phase) (hphased : Phased cfg x₀ now₀ x t')
    (hrank : t'.phase.rank (x.sessionCount cfg.policyId) < phase.rank (x.sessionCount cfg.policyId))
    (hactive : phase.isActive) (hactive' : t'.phase.isActive) :
    Advances cfg W x₀ now₀ x t x t' := by
  exact ⟨h, hphased, .inl hactive', ahead_lt hphase hactive' (Nat.add_lt_add_left hrank _) hactive⟩

theorem unaffected_of_list (hlist : listFileIds x.db cfg.policyId x.cursor = []) :
    Unaffected cfg x := by
  intro i hi
  have hbehind := (page_eq_nil (by decide)).mp hlist i (mem_affectedFileIds.mpr hi)
  have hlt : isBehind id (some x.cursor) i = true := isBehind_some.mpr (h.cursor i hi)
  rw [hbehind] at hlt
  cases hlt

/-- **A page that is listed**, in its batches. -/
theorem paged_of_load {fileIds : List ℕ}
    (hlist : fileIds = listFileIds x.db cfg.policyId x.cursor) (hne : fileIds ≠ []) :
    ∃ batch rest, contiguousScopeBatches (loadFiles x.db fileIds) = .ok (batch :: rest) ∧
      Paged cfg x x.cursor (batch :: rest) := by
  have hids : ∀ i ∈ fileIds, affects x.db cfg.policyId i := by
    intro i hi
    rw [hlist] at hi
    exact mem_affectedFileIds.mp (mem_of_mem_page hi).1
  have howned : ∀ f ∈ loadFiles x.db fileIds, f.workspace ≠ none := by
    intro f hf
    obtain ⟨hrow, hid⟩ := mem_loadFiles.mp hf
    obtain ⟨w, _, hw, _⟩ := h.owned f hrow (hids _ hid)
    rw [hw]
    exact Option.some_ne_none w
  obtain ⟨batches, hok, hgrouped⟩ := batches_of_owned howned
  have hfiles := filesOf_batches hok
  -- every id of the page has its row
  have hrow : ∀ i ∈ fileIds, i ∈ (filesOf batches).map File.id := by
    intro i hi
    obtain ⟨f, hf, rfl⟩ := file_of_affects h.books (hids i hi)
    rw [hfiles]
    exact mem_map_of_mem (mem_loadFiles.mpr ⟨hf, hi⟩)
  have hpaged : Paged cfg x x.cursor batches := by
    refine ⟨?_, ?_, hgrouped, fun i hi => ⟨h.cursor i hi, ?_⟩⟩
    · rw [hfiles]
      have hle : (loadFiles x.db fileIds).Pairwise fun f g => f.id ≤ g.id := behind_ascending
      have hnodup : ((loadFiles x.db fileIds).map File.id).Nodup := by
        refine ((perm_insertionSort _ _).map File.id).nodup_iff.mpr ?_
        exact x.db.files.unique.sublist ((filter_sublist.trans filter_sublist).map File.id)
      rw [pairwise_map]
      refine (hle.and (pairwise_map.mp hnodup)).imp fun hfg => ?_
      exact lt_of_le_of_ne hfg.1 hfg.2
    · intro f hf
      rw [hfiles] at hf
      obtain ⟨hf, hid⟩ := mem_loadFiles.mp hf
      exact ⟨hf, hids _ hid⟩
    · obtain ⟨last, hlast⟩ := Option.isSome_iff_exists.mp (getLast?_isSome.mpr hne)
      rw [hlist] at hlast
      have hbehind : isBehind id (some x.cursor) i = true := isBehind_some.mpr (h.cursor i hi)
      by_cases hle : i ≤ last
      · left
        refine hrow i ?_
        rw [hlist]
        exact mem_page_of_le_last (fun a _ b _ hab => hab) hlast (mem_affectedFileIds.mpr hi) hbehind hle
      · right
        intro f hf
        rw [hfiles] at hf
        have hmem : f.id ∈ listFileIds x.db cfg.policyId x.cursor := hlist ▸ (mem_loadFiles.mp hf).2
        have hflast : f.id ≤ last := le_last hlast hmem
        omega
  cases batches with
  | nil =>
    obtain ⟨i, hi⟩ := exists_mem_of_ne_nil _ hne
    exact absurd (hrow i hi) not_mem_nil
  | cons batch rest => exact ⟨batch, rest, hok, hpaged⟩

end

theorem queued_of_page {b : FileBlob} {bs : List FileBlob}
    (hpage : blobsOfPolicy x.db cfg.policyId = b :: bs) : Queued cfg x (b.id :: bs.map FileBlob.id) := by
  have hids : b.id :: bs.map FileBlob.id = (blobsOfPolicy x.db cfg.policyId).map FileBlob.id := by
    rw [hpage]
    rfl
  rw [hids]
  constructor
  · exact nodup_page (x.db.blobs.unique.sublist (List.filter_sublist.map FileBlob.id))
  · intro k hk
    obtain ⟨c, hc, rfl⟩ := mem_map.mp hk
    obtain ⟨hrow, hpolicy⟩ := mem_filter.mp (mem_of_mem_page hc).1
    exact ⟨c, get_of_mem hrow, of_decide_eq_true hpolicy⟩

theorem noBlobs_of_page (h : Kept cfg W x₀ x) (hpage : blobsOfPolicy x.db cfg.policyId = []) : NoBlobs cfg x := by
  intro b hb hpolicy
  have hmem : b ∈ x.db.blobs.rows.filter fun b => b.policyId = cfg.policyId :=
    mem_filter.mpr ⟨hb, decide_eq_true hpolicy⟩
  have hbehind := (page_eq_nil (by decide)).mp hpage b hmem
  have hlt : isBehind FileBlob.id (some 0) b = true := isBehind_some.mpr (h.positive b hb)
  rw [hbehind] at hlt
  cases hlt

/-- The database without the row. -/
def dropBlob (db : Db) (blobId : ℕ) : Db := { db with blobs := db.blobs.deleteRows fun b => b.id = blobId }

theorem Validating.goto (h : Validating cfg x₀ now₀ x t) {phase : Phase} : Validating cfg x₀ now₀ x (t.goto phase) :=
  ⟨⟨h.alive.policies, h.alive.running, h.alive.cursor⟩, h.start, h.unchanged⟩

theorem Sweeping.goto (h : Sweeping cfg x₀ x t) {phase : Phase} : Sweeping cfg x₀ x (t.goto phase) :=
  ⟨⟨h.alive.policies, h.alive.running, h.alive.cursor⟩, h.sessions, h.unaffected⟩

theorem Alive.goto (h : Alive x₀ x t) {phase : Phase} : Alive x₀ x (t.goto phase) := ⟨h.policies, h.running, h.cursor⟩

/-- **The policy is deleted.** Nothing stands in its way. -/
theorem finish_advances (h₀ : Confirmed cfg W x₀ now₀) (h : Kept cfg W x₀ x)
    (hsweeping : Sweeping cfg x₀ x t) (hnone : NoBlobs cfg x) (hfinishes : t.phase.finishes)
    (hstep : proceed cfg x t now = some (x', t')) : Advances cfg W x₀ now₀ x t x' t' := by
  obtain ⟨policy, hpolicy, _⟩ := h₀.policy
  rw [← hsweeping.alive.policies] at hpolicy
  have hblobs : (x.db.blobs.affected fun b => b.policyId = cfg.policyId) = 0 :=
    countP_eq_zero.mpr fun b hb => by simpa using hnone b hb
  have hsessions : x.sessionCount cfg.policyId = 0 :=
    countP_eq_zero.mpr fun s hs => by simpa using hsweeping.sessions s hs
  have hblocker : policyDeleteBlocker 0 0 0 = none := rfl
  cases hphase : t.phase with
  | findPolicy =>
    simp only [proceed, hphase, hpolicy, Option.isNone_some, Bool.false_eq_true, if_false] at hstep
    cases hstep
    exact .read h hphase ⟨hsweeping.goto, hnone⟩ .refl rfl rfl
  | countBlobs =>
    simp only [proceed, hphase, hblobs, hblocker] at hstep
    cases hstep
    exact .read h hphase ⟨hsweeping.goto, hnone⟩ .refl rfl rfl
  | countTargets =>
    simp only [proceed, hphase, h.targets, hblocker] at hstep
    cases hstep
    exact .read h hphase ⟨hsweeping.goto, hnone⟩ .refl rfl rfl
  | countSessions =>
    simp only [proceed, hphase, hsessions, hblocker] at hstep
    cases hstep
    exact .read h hphase ⟨hsweeping.goto, hnone⟩ .refl rfl rfl
  | deletePolicy =>
    simp only [proceed, hphase, ForcedPurge.deletePolicy, hpolicy, Option.isNone_some, Bool.false_eq_true, if_false,
      hblobs, h.targets, hsessions, hblocker] at hstep
    cases hstep
    refine ⟨h.fewer rfl rfl rfl id, ⟨hsweeping.alive.running, hsweeping.sessions, hsweeping.unaffected, hnone, ?_⟩,
      .inl rfl, ?_⟩
    · exact get_eq_none_iff.mpr fun p hp hid => by
        have hne := (mem_deleteWhere.mp hp).2
        exact of_decide_eq_false hne hid
    · exact ahead_lt hphase rfl .refl rfl
  | idle | failed _ | checkPolicy | previewPolicy | previewBlobs _ | previewImpact _ _ | previewTargets _ _ _
  | previewSessions _ _ _ _ | findSessions | abandon _ _ | list | load _ | purge _ _ | settle _ _ _ _ | sweep
  | countFiles _ _ | countRevisions _ _ _ | deleteBlob _ _ | persistSweep | markSucceeded =>
    rw [hphase] at hfinishes
    cases hfinishes

section

variable (h : Kept cfg W x₀ x) (hphased : Phased cfg x₀ now₀ x t) (hstep : proceed cfg x t now = some (x', t'))
include h hphased hstep

/-- **The purge of a batch.** -/
theorem purge_advances (h₀ : Confirmed cfg W x₀ now₀) {batch : ScopedFileBatch} {rest : List ScopedFileBatch}
    (hphase : t.phase = .purge batch rest) : Advances cfg W x₀ now₀ x t x' t' := by
  simp only [Phased, hphase] at hphased
  obtain ⟨halive, hsessions, hpaged⟩ := hphased
  obtain ⟨hne, hscope⟩ := hpaged.grouped batch mem_cons_self
  have hbatch : ∀ f ∈ batch.files, f ∈ x.db.files.rows ∧ affects x.db cfg.policyId f.id :=
    fun f hf => hpaged.rows f (mem_append_left _ hf)
  obtain ⟨f₁, hf₁⟩ := exists_mem_of_ne_nil _ hne
  obtain ⟨hrow₁, haffects₁⟩ := hbatch f₁ hf₁
  obtain ⟨w, u, hw, hu, hlowers⟩ := h.owned f₁ hrow₁ haffects₁
  obtain rfl : w = batch.scope := Option.some.inj (hw.symm.trans (hscope f₁ hf₁))
  have hcurrent : ∀ f ∈ purgeable x.db batch.files, f ∈ batch.files := by
    intro f hf
    obtain ⟨hrow, hp⟩ := mem_filter.mp hf
    rw [decide_eq_true_eq] at hp
    obtain ⟨y, hy, hid⟩ := hp.1
    rw [← eq_of_key (hbatch y hy).1 hrow hid]
    exact hy
  have hpurgeable : ∀ f ∈ batch.files, f ∈ purgeable x.db batch.files := by
    intro f hf
    refine mem_filter.mpr ⟨(hbatch f hf).1, decide_eq_true ⟨⟨f, hf, rfl⟩, ?_⟩⟩
    rintro ⟨y, hy, hid, htrash⟩
    rw [← eq_of_key (hbatch y hy).1 (hbatch f hf).1 hid]
    exact htrash
  obtain ⟨ids, db, hok⟩ := purge_succeeds h.books h₀.counts h.fits hscope (fun f hf => hscope f (hcurrent f hf)) hu
    (hlowers.imp_right fun hfrees => ⟨f₁, hpurgeable f₁ hf₁, hfrees⟩)
  obtain ⟨hpurged, hrequested⟩ := purgeFilesOn_purged hok
  have hempty : batch.files.isEmpty = false := by
    rw [isEmpty_eq_false_iff]
    exact hne
  have hids : ∀ f ∈ batch.files, f.id ∈ ids := by
    intro f hf
    rw [(purgeFilesOn_ok hempty hok).1]
    exact mem_map_of_mem (hpurgeable f hf)
  have hgone : ∀ i ∈ ids, affects x.db cfg.policyId i := by
    intro i hi
    obtain ⟨f, hf, rfl⟩ := hrequested i hi
    exact (hbatch f hf).2
  have hafter : ∀ f ∈ filesOf rest, ∀ g ∈ batch.files, g.id < f.id := by
    intro f hf g hg
    have hasc := hpaged.ascending
    unfold filesOf at hasc
    rw [flatMap_cons, map_append, pairwise_append] at hasc
    exact hasc.2.2 _ (mem_map_of_mem hg) _ (mem_map_of_mem hf)
  have hkeptId : ∀ f ∈ filesOf rest, f.id ∉ ids := by
    intro f hf hin
    obtain ⟨g, hg, hid⟩ := hrequested f.id hin
    have hlt := hafter f hf g hg
    omega
  simp only [proceed, hphase, runPurge, hok] at hstep
  cases hstep
  refine ⟨?_, ?_, .inl rfl, ?_⟩
  · refine ⟨(purge_keeps h.books hok).finish, ?_, ?_, ?_, h.targets, ?_, ?_, purge_fits hok h.fits, h.abandoned⟩
    · show db.files.rows = _
      rw [hpurged.files, h.files, filter_filter]
      refine filter_congr fun f _ => ?_
      rw [Bool.eq_iff_iff, Bool.and_eq_true, decide_eq_true_eq, decide_eq_true_eq, decide_eq_true_eq]
      constructor
      · rintro ⟨hout, hstill | hnever⟩
        · exact .inl ((hpurged.affects _ _).mpr ⟨hstill, hout⟩)
        · exact .inr hnever
      · rintro (hstill | hnever)
        · obtain ⟨hstill, hout⟩ := (hpurged.affects _ _).mp hstill
          exact ⟨hout, .inl hstill⟩
        · refine ⟨fun hin => ?_, .inr hnever⟩
          have hcontra := h.shrinks _ (hgone _ hin)
          rw [hnever] at hcontra
          cases hcontra
    · intro i hi
      exact h.shrinks i ((hpurged.affects _ _).mp hi).1
    · intro i hi
      exact h.cursor i ((hpurged.affects _ _).mp hi).1
    · intro f hf hi
      rw [show ({ x with db, shares := deleteSharesByFileIds x.shares ids } : World).db = db from rfl] at hf hi
      obtain ⟨hstill, hout⟩ := (hpurged.affects _ _).mp hi
      rw [hpurged.files] at hf
      obtain ⟨w, u, hw, hu, hlowers⟩ := h.owned f (mem_filter.mp hf).1 hstill
      obtain ⟨u', hu', hlowers'⟩ := purge_usage hok hu
      exact ⟨w, u', hw, hu', hlowers.imp hlowers' (purge_frees hok hout)⟩
    · intro b' hb'
      have hsame := hpurged.blobs b'.id
      rw [show db.blobs.get b'.id = some b' from get_of_mem hb', Option.map_some] at hsame
      obtain ⟨b, hb, _⟩ := Option.map_eq_some_iff.mp hsame.symm
      rw [← key_of_get hb]
      exact h.positive b (mem_of_get hb)
  · refine ⟨⟨halive.policies, halive.running, halive.cursor⟩, hsessions, ?_, ?_, ?_, ?_⟩
    · have hasc := hpaged.ascending
      unfold filesOf at hasc ⊢
      rw [flatMap_cons, map_append, pairwise_append] at hasc
      exact hasc.2.1
    · intro f hf
      obtain ⟨hrow, haffects⟩ := hpaged.rows f (mem_append_right _ hf)
      refine ⟨?_, (hpurged.affects _ _).mpr ⟨haffects, hkeptId f hf⟩⟩
      rw [hpurged.files]
      exact mem_filter.mpr ⟨hrow, decide_eq_true (hkeptId f hf)⟩
    · exact fun b hb => hpaged.grouped b (mem_cons_of_mem _ hb)
    · intro i hi
      obtain ⟨hstill, hout⟩ := (hpurged.affects _ _).mp hi
      obtain ⟨g, hg, hlast⟩ := lastFileId_mem hne
      rw [hlast]
      rcases (hpaged.first i hstill).2 with hin | hall
      · obtain ⟨f, hf, rfl⟩ := mem_map.mp hin
        rcases mem_append.mp hf with hf | hf
        · exact absurd (hids f hf) hout
        · exact ⟨hafter f hf g hg, .inl (mem_map_of_mem hf)⟩
      · exact ⟨hall g (mem_append_left _ hg), .inr fun f hf => hall f (mem_append_right _ hf)⟩
  · have hfiles := affectedCount_purged hpurged hrow₁ haffects₁ (hids f₁ hf₁)
    have hlive := liveCount_purged hempty hok
    have hblobs : blobCount db cfg.policyId ≤ blobCount x.db cfg.policyId := blobCount_purged hpurged
    have hcost : (((heldBlobs x.db ids).map Cleanup.find).map Cleanup.cost).sum = 5 * (heldBlobs x.db ids).length := by
      rw [map_map]
      induction heldBlobs x.db ids with
      | nil => rfl
      | cons k l ih =>
        rw [map_cons, sum_cons, ih, length_cons]
        show 5 + _ = _
        omega
    simp only [ahead, Worker.goto, hphase, Phase.isActive, Phase.rank, weight, if_true, hcost]
    omega

/-- **The cursor is persisted**, once the cleanups are over. -/
theorem settle_advances {lastFileId purged : ℕ} {rest : List ScopedFileBatch} (hphase : t.phase = .settle lastFileId
    purged [] rest) : Advances cfg W x₀ now₀ x t x' t' := by
  simp only [Phased, hphase] at hphased
  obtain ⟨halive, hsessions, hpaged⟩ := hphased
  simp only [proceed, hphase, if_true] at hstep
  cases hstep
  refine ⟨?_, ?_, ?_, ?_⟩
  · exact ⟨h.books, h.files, h.shrinks, fun i hi => (hpaged.first i hi).1, h.targets, h.owned, h.positive, h.fits,
      fun _ => hsessions⟩
  · cases rest with
    | nil => exact ⟨⟨halive.policies, halive.running, rfl⟩, hsessions⟩
    | cons batch rest =>
      exact ⟨⟨halive.policies, halive.running, rfl⟩, hsessions, hpaged.ascending, hpaged.rows, hpaged.grouped, hpaged.first⟩
  · exact .inl (nextBatch_onward rest 0).1
  · obtain ⟨hactive, hrank⟩ := nextBatch_onward rest (x.sessionCount cfg.policyId)
    refine ahead_lt hphase hactive ?_ rfl
    show weight x.db cfg.policyId + (nextBatch rest).rank (x.sessionCount cfg.policyId) < _ + 14
    omega

/-- **A row that nothing refers to is removed.** -/
theorem deleteBlob_advances {blobId : ℕ} {rest : List ℕ} (hphase : t.phase = .deleteBlob blobId rest) : Advances cfg
    W x₀ now₀ x t x' t' := by
  simp only [Phased, hphase] at hphased
  obtain ⟨hsweeping, hnodup, hqueued⟩ := hphased
  obtain ⟨b, hb, hpolicy⟩ := hqueued blobId mem_cons_self
  obtain ⟨hfiles, hrevisions⟩ := unreferenced h.books hsweeping.unaffected hb hpolicy
  obtain ⟨hhead, htail⟩ := nodup_cons.mp hnodup
  have hok : Migration.deleteBlobById x.db blobId = .ok (dropBlob x.db blobId) := by
    unfold Migration.deleteBlobById
    refine if_neg ?_
    rintro (hany | hany)
    · obtain ⟨f, hf, hp⟩ := any_eq_true.mp hany
      exact hfiles f hf (of_decide_eq_true hp)
    · obtain ⟨r, hr, hp⟩ := any_eq_true.mp hany
      exact hrevisions r hr (of_decide_eq_true hp)
  have hswept := deleteBlobById_swept hok
  simp only [proceed, hphase, hok] at hstep
  cases hstep
  refine ⟨?_, ?_, ?_, ?_⟩
  · exact h.swept hswept (deleteBlobById_keeps h.books hok) rfl
  · have hsweeping' : ∀ t' : Worker, t'.runtime.lastProcessedFileId = t.runtime.lastProcessedFileId →
        Sweeping cfg x₀ { x with db := dropBlob x.db blobId } t' := by
      intro t' ht'
      refine ⟨⟨hsweeping.alive.policies, hsweeping.alive.running, ht'.trans hsweeping.alive.cursor⟩,
        hsweeping.sessions, fun i hi => hsweeping.unaffected i (hswept.affects.mp hi)⟩
    cases rest with
    | nil => exact hsweeping' _ rfl
    | cons k rest =>
      refine ⟨hsweeping' _ rfl, htail, fun j hj => ?_⟩
      obtain ⟨c, hc, hp⟩ := hqueued j (mem_cons_of_mem _ hj)
      have hne : j ≠ blobId := by
        rintro rfl
        exact hhead hj
      refine ⟨c, ?_, hp⟩
      show (x.db.blobs.deleteRows fun b => b.id = blobId).get j = some c
      refine get_eq_some_iff.mpr ⟨mem_deleteWhere.mpr ⟨mem_of_get hc, ?_⟩, key_of_get hc⟩
      rw [decide_eq_false_iff_not, key_of_get hc]
      exact hne
  · exact .inl (nextBlob_onward rest 0).1
  · have hcounts : liveCount (dropBlob x.db blobId) = liveCount x.db ∧
        affectedCount (dropBlob x.db blobId) cfg.policyId = affectedCount x.db cfg.policyId ∧ _ := hswept.counts
    obtain ⟨hlive, haffected, _⟩ := hcounts
    have hless : blobCount (dropBlob x.db blobId) cfg.policyId < blobCount x.db cfg.policyId :=
      affected_deleteWhere_lt (mem_of_get hb) (decide_eq_true (key_of_get hb)) (decide_eq_true hpolicy)
    obtain ⟨hactive, hrank⟩ := nextBlob_onward rest (x.sessionCount cfg.policyId)
    refine ahead_lt hphase hactive ?_ rfl
    show weight (dropBlob x.db blobId) cfg.policyId + (nextBlob rest).rank (x.sessionCount cfg.policyId) < _ + 7
    unfold weight
    omega

/-- **The validation** finds what was confirmed. -/
theorem validate_advances (h₀ : Confirmed cfg W x₀ now₀) (hvalidates :
    t.phase.validates) (hnow : Steady cfg x₀ now₀ now) : Advances cfg W x₀ now₀ x t x' t' := by
  obtain ⟨policy, hpolicy, hupdated, hdigest⟩ := h₀.policy
  cases hphase : t.phase with (simp only [Phased, hphase] at hphased; simp only [proceed, hphase] at hstep)
  | checkPolicy =>
    obtain ⟨halive, hunchanged⟩ := hphased
    simp only [halive.policies, hpolicy, hupdated, ne_eq, not_true_eq_false, if_false] at hstep
    cases hstep
    by_cases hzero : x.cursor = 0
    · have hafter : afterCheck t = .previewPolicy := if_pos (halive.cursor.trans hzero)
      rw [hafter]
      exact .read h hphase ⟨halive.goto, hzero, hunchanged hzero⟩ .refl rfl rfl
    · have hafter : afterCheck t = .list := if_neg (halive.cursor.symm ▸ hzero)
      rw [hafter]
      exact .read h hphase ⟨halive.goto, h.abandoned hzero⟩ (by show 13 < _ + 21; omega) rfl rfl
  | previewPolicy =>
    simp only [hphased.alive.policies, hpolicy] at hstep
    cases hstep
    exact .read h hphase ⟨hphased.goto, hpolicy⟩ .refl rfl rfl
  | previewBlobs p =>
    obtain ⟨hvalidating, hp⟩ := hphased
    cases hstep
    exact .read h hphase ⟨hvalidating.goto, hp, hvalidating.unchanged.blobs⟩ .refl rfl rfl
  | previewImpact p blobs =>
    obtain ⟨hvalidating, hp, hblobs⟩ := hphased
    cases hstep
    exact .read h hphase ⟨hvalidating.goto, hp, hblobs, hvalidating.unchanged.impact⟩ .refl rfl rfl
  | previewTargets p blobs impact =>
    obtain ⟨hvalidating, hp, hblobs, himpact⟩ := hphased
    cases hstep
    exact .read h hphase ⟨hvalidating.goto, hp, hblobs, himpact, h.targets⟩ .refl rfl rfl
  | previewSessions p blobs impact targets =>
    obtain ⟨hvalidating, hp, hblobs, himpact, htargets⟩ := hphased
    cases hstep
    -- the five reads add up to the preview that was confirmed
    have hpreview : (⟨p, blobs, impact, targets, x.activeSessions cfg.policyId now⟩ : ImpactIdentity) =
        previewOf x₀ policy now₀ := by
      obtain rfl := Option.some.inj (hp.symm.trans hpolicy)
      have hid : p.id = cfg.policyId := key_of_get hpolicy
      unfold previewOf
      rw [hid, hvalidating.unchanged.sessions now hnow.1, hnow.2, hblobs, himpact, htargets, h₀.targets]
    have hafter : afterPreview cfg t ⟨p, blobs, impact, targets, x.activeSessions cfg.policyId now⟩ = t.goto .findSessions := by
      unfold afterPreview
      rw [hpreview, hdigest]
      have hzero : (previewOf x₀ policy now₀).placementTargetCount = 0 := by
        rw [← hpreview]
        exact htargets
      simp [hzero]
    rw [hafter]
    exact .read h hphase hvalidating.alive.goto .refl rfl rfl
  | idle | failed _ | findSessions | abandon _ _ | list | load _ | purge _ _ | settle _ _ _ _ | sweep | countFiles _ _
  | countRevisions _ _ _ | deleteBlob _ _ | persistSweep | findPolicy | countBlobs | countTargets | countSessions
  | deletePolicy | markSucceeded =>
    rw [hphase] at hvalidates
    cases hvalidates

theorem sessions_advances (hphase : t.phase = .findSessions) : Advances cfg W x₀ now₀ x t x' t' := by
  simp only [Phased, hphase] at hphased
  simp only [proceed, hphase] at hstep
  cases hstep
  have hlength : ((x.sessions.rows.filter fun s => s.policyId = cfg.policyId).map PolicySession.id).length =
      x.sessionCount cfg.policyId := by
    unfold World.sessionCount affected
    rw [length_map, countP_eq_length_filter]
  obtain ⟨hnext, hrank⟩ := nextSession_onward ((x.sessions.rows.filter fun s => s.policyId = cfg.policyId).map
    PolicySession.id) (x.sessionCount cfg.policyId)
  refine .read h hphase ?_ ?_ rfl hnext
  · have hlisted : ∀ s ∈ x.sessions.rows, s.policyId = cfg.policyId →
        s.id ∈ (x.sessions.rows.filter fun s => s.policyId = cfg.policyId).map PolicySession.id :=
      fun s hs hp => mem_map_of_mem (mem_filter.mpr ⟨hs, decide_eq_true hp⟩)
    cases hids : (x.sessions.rows.filter fun s => s.policyId = cfg.policyId).map PolicySession.id with
    | nil =>
      refine ⟨hphased.goto, fun s hs hp => ?_⟩
      have hmem := hlisted s hs hp
      rw [hids] at hmem
      cases hmem
    | cons session rest =>
      rw [hids] at hlisted
      exact ⟨hphased.goto, hlisted⟩
  · show (nextSession _).rank _ < _ + 15
    omega

theorem abandon_advances {session : String} {rest : List String} (hphase : t.phase = .abandon session rest) :
    Advances cfg W x₀ now₀ x t x' t' := by
  simp only [Phased, hphase] at hphased
  obtain ⟨halive, hlisted⟩ := hphased
  simp only [proceed, hphase] at hstep
  cases hstep
  have hleft : ∀ s ∈ (x.sessions.deleteWhere fun s => s.id = session).rows, s ∈ x.sessions.rows ∧ s.id ≠ session := by
    intro s hs
    obtain ⟨hrow, hne⟩ := mem_deleteWhere.mp hs
    exact ⟨hrow, of_decide_eq_false hne⟩
  refine ⟨?_, ?_, .inl (nextSession_onward rest 0).1, ?_⟩
  · exact h.fewer rfl rfl rfl fun hnone s hs => hnone s (hleft s hs).1
  · have hbehind : ∀ s ∈ (x.sessions.deleteWhere fun s => s.id = session).rows, s.policyId = cfg.policyId → s.id ∈ rest := by
      intro s hs hp
      obtain ⟨hrow, hne⟩ := hleft s hs
      exact (mem_cons.mp (hlisted s hrow hp)).resolve_left hne
    cases rest with
    | nil => exact ⟨⟨halive.policies, halive.running, halive.cursor⟩, fun s hs hp => absurd (hbehind s hs hp) not_mem_nil⟩
    | cons next rest => exact ⟨⟨halive.policies, halive.running, halive.cursor⟩, hbehind⟩
  · refine ahead_lt hphase (nextSession_onward rest 0).1 ?_ rfl
    exact Nat.add_lt_add_left (Nat.lt_succ_of_le (nextSession_onward rest _).2) _

theorem list_advances (hphase : t.phase = .list) : Advances cfg W x₀ now₀ x t x' t' := by
  simp only [Phased, hphase] at hphased
  obtain ⟨halive, hsessions⟩ := hphased
  cases hlist : listFileIds x.db cfg.policyId t.runtime.lastProcessedFileId with
  | nil =>
    simp only [proceed, hphase, hlist] at hstep
    cases hstep
    rw [halive.cursor] at hlist
    have hsweeping : Sweeping cfg x₀ x (t.goto .sweep) := ⟨halive.goto, hsessions, unaffected_of_list h hlist⟩
    exact .read h hphase hsweeping (by show 10 < 13; omega) rfl rfl
  | cons id ids =>
    simp only [proceed, hphase, hlist] at hstep
    cases hstep
    rw [halive.cursor] at hlist
    exact .read h hphase ⟨halive.goto, hsessions, hlist.symm, cons_ne_nil _ _⟩ .refl rfl rfl

theorem load_advances {fileIds : List ℕ} (hphase : t.phase = .load fileIds) : Advances cfg W x₀ now₀ x t x' t' := by
  simp only [Phased, hphase] at hphased
  obtain ⟨halive, hsessions, hlist, hne⟩ := hphased
  obtain ⟨batch, rest, hok, hpaged⟩ := paged_of_load h hlist hne
  simp only [proceed, hphase, hok] at hstep
  cases hstep
  exact .read h hphase ⟨halive.goto, hsessions, hpaged⟩ .refl rfl rfl

theorem sweep_advances (hphase : t.phase = .sweep) : Advances cfg W x₀ now₀ x t x' t' := by
  simp only [Phased, hphase] at hphased
  cases hpage : blobsOfPolicy x.db cfg.policyId with
  | nil =>
    simp only [proceed, hphase, hpage] at hstep
    cases hstep
    exact .read h hphase ⟨hphased.goto, noBlobs_of_page h hpage⟩ (by show 6 < 10; omega) rfl rfl
  | cons b bs =>
    simp only [proceed, hphase, hpage] at hstep
    cases hstep
    exact .read h hphase ⟨hphased.goto, queued_of_page hpage⟩ .refl rfl rfl

theorem countFiles_advances {blobId : ℕ} {rest : List ℕ} (hphase : t.phase = .countFiles blobId rest) : Advances cfg
    W x₀ now₀ x t x' t' := by
  simp only [Phased, hphase] at hphased
  obtain ⟨hsweeping, hqueued⟩ := hphased
  obtain ⟨b, hb, hpolicy⟩ := hqueued.2 blobId mem_cons_self
  obtain ⟨hfiles, _⟩ := unreferenced h.books hsweeping.unaffected hb hpolicy
  simp only [proceed, hphase] at hstep
  cases hstep
  have hzero : (x.db.files.affected fun f => f.blobId = blobId) = 0 :=
    countP_eq_zero.mpr fun f hf => by simpa using hfiles f hf
  exact .read h hphase ⟨hsweeping.goto, hqueued, hzero⟩ .refl rfl rfl

theorem countRevisions_advances {blobId currentRefs : ℕ} {rest : List ℕ} (hphase : t.phase = .countRevisions blobId
    currentRefs rest) : Advances cfg W x₀ now₀ x t x' t' := by
  simp only [Phased, hphase] at hphased
  obtain ⟨hsweeping, hqueued, hcurrent⟩ := hphased
  obtain ⟨b, hb, hpolicy⟩ := hqueued.2 blobId mem_cons_self
  obtain ⟨_, hrevisions⟩ := unreferenced h.books hsweeping.unaffected hb hpolicy
  have hhistorical : countNonCurrentBlobRefs x.db blobId = 0 := by
    unfold countNonCurrentBlobRefs
    refine countP_eq_zero.mpr fun r hr => ?_
    have hne := hrevisions r hr
    simp [hne]
  simp only [proceed, hphase, hcurrent, hhistorical, lt_self_iff_false, or_self, if_false] at hstep
  cases hstep
  exact .read h hphase ⟨hsweeping.goto, hqueued⟩ .refl rfl rfl

theorem persistSweep_advances (hphase : t.phase = .persistSweep) : Advances cfg W x₀ now₀ x t x' t' := by
  simp only [Phased, hphase] at hphased
  simp only [proceed, hphase] at hstep
  cases hstep
  refine ⟨h.fewer rfl hphased.alive.cursor rfl id, ?_, .inl rfl, ?_⟩
  · exact (⟨⟨hphased.alive.policies, hphased.alive.running, rfl⟩, hphased.sessions, hphased.unaffected⟩ :
      Sweeping cfg x₀ { x with runtime := some t.runtime } (t.goto .sweep))
  · exact ahead_lt hphase rfl .refl rfl

/-- **The task is marked.** -/
theorem mark_advances (hphase : t.phase = .markSucceeded) : Advances cfg W x₀ now₀ x t x' t' := by
  simp only [Phased, hphase] at hphased
  obtain ⟨_, hemptied⟩ := hphased
  simp only [proceed, hphase] at hstep
  cases hstep
  refine ⟨h.fewer rfl rfl rfl id, .inl ⟨rfl, ?_⟩, .inr ⟨rfl, rfl⟩, ?_⟩
  · exact ⟨hemptied.sessions, hemptied.unaffected, hemptied.blobs, hemptied.gone⟩
  · have hbefore : ahead cfg (x, t) = weight x.db cfg.policyId + 1 := by simp [ahead, hphase, Phase.isActive, Phase.rank]
    rw [hbefore]
    show 0 < _
    omega

/-- **A statement of an attempt** goes on, and takes it closer to its end. -/
theorem proceed_advances (h₀ : Confirmed cfg W x₀ now₀) (hnow : Steady cfg x₀ now₀ now) : Advances cfg W x₀ now₀ x t
    x' t' := by
  cases hphase : t.phase with
  | idle | failed _ =>
    simp only [proceed, hphase] at hstep
    cases hstep
  | checkPolicy | previewPolicy | previewBlobs _ | previewImpact _ _ | previewTargets _ _ _ | previewSessions _ _ _ _ =>
    exact validate_advances h hphased hstep h₀ (by rw [hphase]; rfl) hnow
  | findSessions => exact sessions_advances h hphased hstep hphase
  | abandon _ _ => exact abandon_advances h hphased hstep hphase
  | list => exact list_advances h hphased hstep hphase
  | load _ => exact load_advances h hphased hstep hphase
  | purge _ _ => exact purge_advances h hphased hstep h₀ hphase
  | settle _ _ cleanups _ =>
    cases cleanups with
    | nil => exact settle_advances h hphased hstep hphase
    | cons _ _ =>
      simp only [proceed, hphase, reduceCtorEq, if_false] at hstep
  | sweep => exact sweep_advances h hphased hstep hphase
  | countFiles _ _ => exact countFiles_advances h hphased hstep hphase
  | countRevisions _ _ _ => exact countRevisions_advances h hphased hstep hphase
  | deleteBlob _ _ => exact deleteBlob_advances h hphased hstep hphase
  | persistSweep => exact persistSweep_advances h hphased hstep hphase
  | findPolicy | countBlobs | countTargets | countSessions | deletePolicy =>
    simp only [Phased, hphase] at hphased
    exact finish_advances h₀ h hphased.1 hphased.2 (by rw [hphase]; rfl) hstep
  | markSucceeded => exact mark_advances h hphased hstep hphase

end

/-- **A step of a cleanup**, while the batch settles. -/
theorem cleanup_advances (h : Kept cfg W x₀ x) (hphased : Phased cfg x₀ now₀ x t) {index : ℕ} {succeeds : Bool}
    (hstep : step cfg x t (.cleanup index succeeds) = some (x', t')) : Advances cfg W x₀ now₀ x t x' t' := by
  simp only [step] at hstep
  split at hstep
  · rename_i lastFileId purged cleanups rest hphase
    split at hstep
    · cases hstep
    rename_i c hc
    cases hstep
    have hswept : Swept x.db (stepCleanup x.db succeeds c).1 := stepCleanup_swept succeeds c
    simp only [Phased, hphase] at hphased
    obtain ⟨halive, hsessions, hpaged⟩ := hphased
    refine ⟨h.swept hswept (stepCleanup_keeps h.books succeeds c).finish (stepCleanup_usage _ _ _), ?_, .inl rfl, ?_⟩
    · refine ⟨⟨halive.policies, halive.running, halive.cursor⟩, hsessions, hpaged.ascending, fun f hf => ?_,
        hpaged.grouped, fun i hi => hpaged.first i (hswept.affects.mp hi)⟩
      obtain ⟨hrow, haffects⟩ := hpaged.rows f hf
      exact ⟨hswept.files ▸ hrow, hswept.affects.mpr haffects⟩
    · obtain ⟨hlive, haffected, hblobs⟩ := @Swept.counts _ _ cfg.policyId hswept
      have hcost := stepCleanup_cost x.db succeeds c
      have hsplit : cleanups = cleanups.take index ++ c :: cleanups.drop (index + 1) := by
        obtain ⟨hlt, rfl⟩ := List.getElem?_eq_some_iff.mp hc
        rw [getElem_cons_drop, take_append_drop]
      have hsum : (cleanups.map Cleanup.cost).sum = ((cleanups.take index).map Cleanup.cost).sum +
          (c.cost + ((cleanups.drop (index + 1)).map Cleanup.cost).sum) := by
        conv_lhs => rw [hsplit]
        simp
      refine ahead_lt hphase rfl ?_ rfl
      show weight (stepCleanup x.db succeeds c).1 cfg.policyId + ((List.map Cleanup.cost (_ ++ _ ++ _)).sum + 14) <
        _ + ((cleanups.map Cleanup.cost).sum + 14)
      rw [map_append, map_append, sum_append, sum_append]
      unfold weight
      omega
  · cases hstep

theorem proceed_enabled (hactive : t.phase.isActive) (now : ℕ) :
    (∃ y, proceed cfg x t now = some y) ∨ ∃ y, step cfg x t (.cleanup 0 true) = some y := by
  cases hphase : t.phase with
  | idle | failed _ =>
    rw [hphase] at hactive
    cases hactive
  | settle _ _ cleanups _ =>
    cases cleanups with
    | nil =>
      left
      simp only [proceed, hphase, if_true]
      exact ⟨_, rfl⟩
    | cons c cleanups =>
      right
      simp only [step, hphase, getElem?_cons_zero]
      exact ⟨_, rfl⟩
  | checkPolicy | previewPolicy | previewBlobs _ | previewImpact _ _ | previewTargets _ _ _ | previewSessions _ _ _ _
  | findSessions | abandon _ _ | list | load _ | purge _ _ | sweep | countFiles _ _ | countRevisions _ _ _
  | deleteBlob _ _ | persistSweep | findPolicy | countBlobs | countTargets | countSessions | deletePolicy
  | markSucceeded =>
    left
    simp only [proceed, hphase]
    repeat' split
    all_goals exact ⟨_, rfl⟩

end Steps

/-! ### Attempts that are cut off -/

section Runs

variable (cfg : Payload ImpactIdentity) (x₀ : World) (now₀ : ℕ)


/-- A state that an attempt may be cut off in: the policy is there, and the cursor has moved or nothing that the
digest counts has. -/
def Recoverable (x : World) : Prop := x.policies.get cfg.policyId ≠ none ∧ (x.cursor = 0 → Unchanged cfg x₀ now₀ x)

/-- Any attempts, cut off where `C` holds. -/
def CutOff (C : World → Prop) (y : World × Worker) : Act → Prop
  | .claim | .cleanup _ _ => True
  | .ok now => Steady cfg x₀ now₀ now
  | .fails | .crash => y.1.succeeded = false → C y.1

/-- An attempt that is not cut off. Failures of cleanups are only logged. -/
def Uninterrupted : World × Worker → Act → Prop
  | _, .cleanup _ _ => True
  | _, .ok now => Steady cfg x₀ now₀ now
  | _, .claim | _, .fails | _, .crash => False

instance (y : World × Worker) (a : Act) : Decidable (Uninterrupted cfg x₀ now₀ y a) := by
  unfold Uninterrupted
  split <;> infer_instance

/-- The purge is done. -/
structure Destroyed (x : World) : Prop where
  succeeded : x.succeeded = true
  files : x.db.files.rows = x₀.db.files.rows.filter fun f => affects x₀.db cfg.policyId f.id = false
  blobs : NoBlobs cfg x
  policy : x.policies.get cfg.policyId = none

/-- The next attempt, not cut off, ends with the purge done: it makes at most `n` steps, and while it is not done it
can go on. -/
def Resumes (x : World) (t : Worker) : Prop :=
  ∃ y, step cfg x t .claim = some y ∧ ∃ n, ∀ l z,
    (attempts cfg).run (Uninterrupted cfg x₀ now₀) l y = some z → l.length ≤ n ∧
      (Destroyed cfg x₀ z.1 ∨ ∃ a z', Uninterrupted cfg x₀ now₀ z a ∧ (attempts cfg).step z a = some z')

end Runs

section Resuming

variable {cfg : Payload ImpactIdentity} {W : Watched} {x₀ x x' : World} {now₀ : ℕ} {t t' : Worker} {a : Act}

/-- An attempt is over with the purge done, or the policy is there until it is deleted. -/
theorem phased_cases (hphased : Phased cfg x₀ now₀ x t) :
    Emptied cfg x ∨ (x.succeeded = false ∧ x.policies = x₀.policies) := by
  cases hphase : t.phase with simp only [Phased, hphase] at hphased
  | idle | failed _ =>
    exact hphased.imp And.right fun h => ⟨h.1, h.2.1⟩
  | findSessions =>
    exact .inr ⟨hphased.running, hphased.policies⟩
  | previewPolicy | sweep | persistSweep =>
    exact .inr ⟨hphased.alive.running, hphased.alive.policies⟩
  | checkPolicy | abandon _ _ | list | load _ | purge _ _ | settle _ _ _ _ =>
    exact .inr ⟨hphased.1.running, hphased.1.policies⟩
  | previewBlobs _ | previewImpact _ _ | previewTargets _ _ _ | previewSessions _ _ _ _ | countFiles _ _
  | countRevisions _ _ _ | deleteBlob _ _ | findPolicy | countBlobs | countTargets | countSessions | deletePolicy =>
    exact .inr ⟨hphased.1.alive.running, hphased.1.alive.policies⟩
  | markSucceeded =>
    exact .inl hphased.2

theorem emptied_of_phased (hphased : Phased cfg x₀ now₀ x t) (hsucceeded : x.succeeded = true) : Emptied cfg x := by
  refine (phased_cases hphased).resolve_right fun h => ?_
  rw [hsucceeded] at h
  cases h.1

theorem phased_stopped (hphased : Phased cfg x₀ now₀ x t) (hcut : x.succeeded = false → Recoverable cfg x₀ now₀ x)
    (hstopped : t'.phase.isActive = false) : Phased cfg x₀ now₀ x t' := by
  have hleft : (x.succeeded = true ∧ Emptied cfg x) ∨
      (x.succeeded = false ∧ x.policies = x₀.policies ∧ (x.cursor = 0 → Unchanged cfg x₀ now₀ x)) := by
    cases hsucceeded : x.succeeded with
    | true => exact .inl ⟨rfl, emptied_of_phased hphased hsucceeded⟩
    | false =>
      obtain ⟨hpolicy, hunchanged⟩ := hcut hsucceeded
      exact .inr ⟨rfl, ((phased_cases hphased).resolve_left fun h => hpolicy h.gone).2, hunchanged⟩
  unfold Phased
  cases hphase : t'.phase with
  | idle | failed _ => exact hleft
  | _ =>
    rw [hphase] at hstopped
    cases hstopped

theorem resume_step (h₀ : Confirmed cfg W x₀ now₀) (h : Kept cfg W x₀ x ∧ Phased cfg x₀ now₀ x t)
    (hcut : CutOff cfg x₀ now₀ (Recoverable cfg x₀ now₀) (x, t) a) (hstep : step cfg x t a = some (x', t')) :
    Kept cfg W x₀ x' ∧ Phased cfg x₀ now₀ x' t' := by
  obtain ⟨hkept, hphased⟩ := h
  cases a with
  | claim =>
    simp only [step] at hstep
    split at hstep
    on_goal 3 => cases hstep
    all_goals
      rename_i hphase
      split_ifs at hstep with hsucceeded
      cases hstep
      simp only [Phased, hphase] at hphased
      obtain ⟨hrunning, hpolicies, hunchanged⟩ := hphased.resolve_left fun hdone => hsucceeded hdone.1
      exact ⟨hkept, ⟨hpolicies, hrunning, rfl⟩, hunchanged⟩
  | ok now =>
    have hadvances := proceed_advances hkept hphased hstep h₀ hcut
    exact ⟨hadvances.kept, hadvances.phased⟩
  | cleanup index succeeds =>
    have hadvances := cleanup_advances hkept hphased hstep
    exact ⟨hadvances.kept, hadvances.phased⟩
  | fails =>
    simp only [step] at hstep
    split at hstep
    · cases hstep
    · cases hstep
    · cases hstep
      exact ⟨hkept, phased_stopped hphased hcut rfl⟩
  | crash =>
    cases hstep
    exact ⟨hkept, phased_stopped hphased hcut rfl⟩

theorem resume_run (h₀ : Confirmed cfg W x₀ now₀) {y : World × Worker}
    (hrun : Lts.Reach (attempts cfg) (CutOff cfg x₀ now₀ (Recoverable cfg x₀ now₀)) (x₀, {}) y) :
    Kept cfg W x₀ y.1 ∧ Phased cfg x₀ now₀ y.1 y.2 := by
  refine hrun.induct (I := fun y => Kept cfg W x₀ y.1 ∧ Phased cfg x₀ now₀ y.1 y.2) ⟨h₀.kept, ?_⟩
    fun h hcut hstep => resume_step h₀ h hcut hstep
  exact .inr ⟨h₀.fresh.2, rfl, fun _ => ⟨rfl, rfl, fun _ _ => rfl⟩⟩

theorem Emptied.destroyed (h : Kept cfg W x₀ x) (hemptied : Emptied cfg x) (hsucceeded : x.succeeded = true) :
    Destroyed cfg x₀ x := by
  refine ⟨hsucceeded, ?_, hemptied.blobs, hemptied.gone⟩
  rw [h.files]
  refine filter_congr fun f _ => ?_
  rw [decide_eq_decide]
  exact or_iff_right (hemptied.unaffected f.id)

/-- **A confirmed purge can be resumed**, after any attempts that are cut off where the next one recovers. -/
theorem purge_resumable (cfg : Payload ImpactIdentity) {W : Watched} {x₀ x : World} {now₀ : ℕ} {t : Worker}
    (h₀ : Confirmed cfg W x₀ now₀)
    (hrun : Lts.Reach (attempts cfg) (CutOff cfg x₀ now₀ (Recoverable cfg x₀ now₀)) (x₀, {}) (x, t))
    (hstopped : t.phase.isActive = false) (hopen : x.succeeded = false) : Resumes cfg x₀ now₀ x t := by
  obtain ⟨hkept, hphased⟩ := resume_run h₀ hrun
  let begun : Worker := ⟨x.runtime.getD {}, .checkPolicy⟩
  have hclaim : step cfg x t .claim = some (x, begun) := by
    simp only [step]
    split
    · rw [if_neg (by simp [hopen])]
    · rw [if_neg (by simp [hopen])]
    · rename_i hidle hfailed
      cases hphase : t.phase with
      | idle => exact absurd hphase hidle
      | failed e => exact absurd hphase (hfailed e)
      | _ =>
        rw [hphase] at hstopped
        cases hstopped
  obtain ⟨hkept', hphased'⟩ : Kept cfg W x₀ x ∧ Phased cfg x₀ now₀ x begun :=
    resume_step (a := .claim) h₀ ⟨hkept, hphased⟩ trivial hclaim
  -- an attempt that is not cut off stays under way or has succeeded
  let I : World × Worker → Prop := fun y => Kept cfg W x₀ y.1 ∧ Phased cfg x₀ now₀ y.1 y.2 ∧
    (y.2.phase.isActive ∨ (y.1.succeeded = true ∧ y.2.phase = .idle))
  have hI : ∀ {y y' : World × Worker} {a : Act}, I y → Uninterrupted cfg x₀ now₀ y a →
      (attempts cfg).step y a = some y' → I y' ∧ ahead cfg y' < ahead cfg y := by
    rintro y y' a ⟨hk, hp, _⟩ ha hstep
    cases a with
    | ok now =>
      have hadvances := proceed_advances hk hp hstep h₀ ha
      exact ⟨⟨hadvances.kept, hadvances.phased, hadvances.onward⟩, hadvances.less⟩
    | cleanup index succeeds =>
      have hadvances := cleanup_advances hk hp hstep
      exact ⟨⟨hadvances.kept, hadvances.phased, hadvances.onward⟩, hadvances.less⟩
    | claim | fails | crash => exact absurd ha id
  refine ⟨(x, begun), hclaim, ahead cfg (x, begun), fun l z hl => ?_⟩
  obtain ⟨⟨hk, hp, honward⟩, hle⟩ := Lts.run_bounded (ahead cfg) hI ⟨hkept', hphased', .inl rfl⟩ hl
  refine ⟨by omega, ?_⟩
  rcases honward with hactive | ⟨hsucceeded, _⟩
  · right
    have hsteady : Steady cfg x₀ now₀ now₀ := ⟨le_refl _, rfl⟩
    rcases proceed_enabled hactive now₀ with ⟨z', hz⟩ | ⟨z', hz⟩
    · exact ⟨.ok now₀, z', hsteady, hz⟩
    · exact ⟨.cleanup 0 true, z', trivial, hz⟩
  · exact .inl (Emptied.destroyed hk (emptied_of_phased hp hsucceeded) hsucceeded)

end Resuming

/-! ### Two cut-offs

A file with two versions is all that the policy holds. The purge of its batch is cut off after the cursor is
persisted, and the next attempt ends it; or before, and the next attempt finds another impact than the confirmed one.
-/

instance (cfg : Payload ImpactIdentity) (x₀ : World) (now₀ : ℕ) (C : World → Prop) [DecidablePred C] (y : World × Worker)
    (a : Act) : Decidable (CutOff cfg x₀ now₀ C y a) := by
  unfold CutOff
  split <;> infer_instance

theorem cutOff_mono {cfg : Payload ImpactIdentity} {x₀ : World} {now₀ : ℕ} {C C' : World → Prop} {y y' : World × Worker}
    (hC : ∀ x, C x → C' x) (h : Lts.Reach (attempts cfg) (CutOff cfg x₀ now₀ C) y y') :
    Lts.Reach (attempts cfg) (CutOff cfg x₀ now₀ C') y y' := by
  refine Lts.Reach.project id (fun {s s' a} hcut hstep => .inr ⟨a, ?_, hstep⟩) h
  cases a with
  | claim | cleanup _ _ => trivial
  | ok now => exact hcut
  | fails | crash => exact fun hopen => hC _ (hcut hopen)

/-- The cursor has moved. -/
def Moved (x : World) : Prop := x.policies.get 1 ≠ none ∧ x.cursor ≠ 0

instance : DecidablePred Moved := fun _ => inferInstanceAs (Decidable (_ ∧ _))

theorem overwritten_confirmed :
    Confirmed lostPayload (sampleEnv.watch True False (fun h => h.elim) False.elim) (lostWorld overwrittenDb) 0 := by
  have hempty : Consistent (sampleEnv.watch True False (fun h => h.elim) False.elim) emptyDb :=
    ⟨ledger_empty, fun _ => balanced_of_exact (fun _ hb => absurd hb not_mem_nil)
      fun _ hr => absurd hr not_mem_nil, False.elim, .refl _⟩
  refine ⟨(inOrder_run hempty sample_run).books, trivial, by decide, by decide, by decide,
    ⟨lostPolicy, rfl, rfl, by decide⟩, rfl, ⟨rfl, rfl⟩, fun f hf _ => ?_⟩
  obtain rfl : f = storedFile := mem_singleton.mp hf
  exact ⟨.personal 1, _, rfl, rfl, .inl (.inr (by decide))⟩

theorem purge_resumable_overwritten : ∃ x t, Lts.Reach (attempts lostPayload)
    (CutOff lostPayload (lostWorld overwrittenDb) 0 (Recoverable lostPayload (lostWorld overwrittenDb) 0))
    (lostWorld overwrittenDb, {}) (x, t) ∧ x.cursor = 1 ∧ x.db.files.rows = [] ∧
      Resumes lostPayload (lostWorld overwrittenDb) 0 x t := by
  have hrun : ((attempts lostPayload).run (CutOff lostPayload (lostWorld overwrittenDb) 0 Moved)
      [.claim, go, go, go, go, go, go, go, go, go, go, .cleanup 0 false, go, .crash] (lostWorld overwrittenDb, {})).map
        (fun y => (y.2.phase, y.1.succeeded, y.1.cursor, y.1.db.files.rows)) = some (.idle, false, 1, []) := by
    decide
  obtain ⟨⟨x, t⟩, hrun, hy⟩ := Option.map_eq_some_iff.mp hrun
  simp only [Prod.mk.injEq] at hy
  obtain ⟨hphase, hopen, hcursor, hfiles⟩ := hy
  have hrecovers : ∀ x, Moved x → Recoverable lostPayload (lostWorld overwrittenDb) 0 x :=
    fun x hmoved => ⟨hmoved.1, fun hzero => absurd hzero hmoved.2⟩
  have hreach := cutOff_mono hrecovers (Lts.reach_of_run hrun)
  refine ⟨x, t, hreach, hcursor, hfiles, purge_resumable lostPayload overwritten_confirmed hreach ?_ hopen⟩
  rw [hphase]
  rfl

/-- **A batch that is purged before its cursor is persisted** locks the task out. -/
theorem purged_batch_locks_out : ¬ ∀ (cfg : Payload ImpactIdentity) (W : Watched) (x₀ x : World) (now₀ : ℕ) (t : Worker),
    Confirmed cfg W x₀ now₀ → Lts.Reach (attempts cfg) (CutOff cfg x₀ now₀ fun _ => True) (x₀, {}) (x, t) →
      t.phase.isActive = false → x.succeeded = false → Resumes cfg x₀ now₀ x t := by
  intro hall
  have hrun : ((attempts lostPayload).run (CutOff lostPayload (lostWorld overwrittenDb) 0 fun _ => True)
      [.claim, go, go, go, go, go, go, go, go, go, go, .crash] (lostWorld overwrittenDb, {})).map
        (fun y => (y.2.phase, y.1.succeeded, ((step lostPayload y.1 y.2 .claim).bind fun y =>
          (attempts lostPayload).run (Uninterrupted lostPayload (lostWorld overwrittenDb) 0) [go, go, go, go, go, go] y).map
            fun z => (z.2.phase.isActive, z.1.succeeded))) = some (.idle, false, some (false, false)) := by
    decide
  obtain ⟨⟨x, t⟩, hrun, hy⟩ := Option.map_eq_some_iff.mp hrun
  simp only [Prod.mk.injEq] at hy
  obtain ⟨hphase, hopen, hlocked⟩ := hy
  obtain ⟨z, hz, hend⟩ := Option.map_eq_some_iff.mp hlocked
  simp only [Prod.mk.injEq] at hend
  obtain ⟨y, hclaim, hz⟩ := Option.bind_eq_some_iff.mp hz
  have hstopped : t.phase.isActive = false := by
    rw [hphase]
    rfl
  obtain ⟨y', hclaim', n, hends⟩ := hall lostPayload _ (lostWorld overwrittenDb) x 0 t overwritten_confirmed
    (Lts.reach_of_run hrun) hstopped hopen
  obtain rfl : y' = y := Option.some.inj (hclaim'.symm.trans hclaim)
  rcases (hends _ z hz).2 with hdestroyed | ⟨a, z', ha, hstep⟩
  · have hsucceeded := hdestroyed.succeeded
    rw [hend.2] at hsucceeded
    cases hsucceeded
  · -- the attempt has failed, so no statement of it is left
    have hnone : step lostPayload z.1 z.2 a = none := by
      cases hstuck : z.2.phase with
      | idle | failed _ =>
        cases a with
        | ok now => simp only [step, proceed, hstuck]
        | cleanup index succeeds => simp only [step, hstuck]
        | claim | fails | crash => exact absurd ha id
      | _ =>
        rw [hstuck] at hend
        cases hend.1
    rw [show (attempts lostPayload).step z a = step lostPayload z.1 z.2 a from rfl, hnone] at hstep
    cases hstep

end AsterDrive.Storage.ForcedPurge
