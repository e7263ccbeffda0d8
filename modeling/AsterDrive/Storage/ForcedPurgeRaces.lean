import AsterDrive.Storage.ForcedPurge

/-!
# Storage/ForcedPurgeRaces — a forced purge among other transactions

A step of the task changes the content tables in one of two ways: it purges files (`Purged`), or it leaves everything
but blob rows that nothing refers to (`Swept`). So only a file of the batch goes, and no row that is referenced.

Whether a file of the batch is affected was looked up when the page was listed. `StillAffected` says of another
transaction that it leaves every file that is listed and not yet purged affected; among such transactions a purge
destroys only affected files (`purge_destroys_affected`).
-/

namespace AsterDrive.Storage.ForcedPurge

open Db List Option Function

/-! ### Looking a reference up -/

section Affects

variable {db db' : Db} {policyId fileId k : ℕ} {ids : List ℕ}

theorem inPolicy_iff {blobId : Option ℕ} : inPolicy db policyId blobId ↔
    ∃ k b, blobId = some k ∧ db.blobs.get k = some b ∧ b.policyId = policyId := by
  unfold inPolicy
  rw [decide_eq_true_eq]
  constructor
  · rintro ⟨b, hb, hk, hp⟩
    exact ⟨b.id, b, hk, Table.get_of_mem hb, hp⟩
  · rintro ⟨k, b, hk, hb, hp⟩
    refine ⟨b, Table.mem_of_get hb, ?_, hp⟩
    rw [hk, Table.key_of_get hb]

theorem affects_iff : affects db policyId fileId ↔ ∃ h ∈ db.histories.rows, h.fileId = some fileId ∧
    ∃ r ∈ db.revisions.rows, r.historyId = h.id ∧ r.retired = false ∧ inPolicy db policyId r.blobId := by
  unfold affects
  rw [decide_eq_true_eq]

theorem mem_affectedFileIds : fileId ∈ affectedFileIds db policyId ↔ affects db policyId fileId := by
  unfold affectedFileIds
  rw [mem_filter, mem_dedup, mem_filterMap]
  constructor
  · rintro ⟨_, ha⟩
    exact ha
  · intro ha
    obtain ⟨h, hh, hf, _⟩ := (affects_iff).mp ha
    exact ⟨⟨h, hh, hf⟩, ha⟩

end Affects

/-! ### What a step changes -/

/-- The files with these ids are purged. -/
structure Purged (db db' : Db) (ids : List ℕ) : Prop where
  files : db'.files.rows = db.files.rows.filter fun f => f.id ∉ ids
  affects : ∀ policyId i, affects db' policyId i ↔ affects db policyId i ∧ i ∉ ids
  blobs : ∀ k, (db'.blobs.get k).map FileBlob.policyId = (db.blobs.get k).map FileBlob.policyId

/-- Only blob rows change: their counts, and rows without a reference may go. -/
structure Swept (db db' : Db) : Prop where
  files : db'.files = db.files
  histories : db'.histories = db.histories
  revisions : db'.revisions = db.revisions
  kept : ∀ k b', db'.blobs.get k = some b' →
    ∃ b, db.blobs.get k = some b ∧ b'.policyId = b.policyId ∧ b'.refCount ≤ max b.refCount 0
  gone : ∀ k b, db.blobs.get k = some b → db'.blobs.get k = none → isReferenced db k = false

section Changes

variable {db db' : Db} {policyId fileId k : ℕ} {ids : List ℕ}

theorem Swept.refl (db : Db) : Swept db db := by
  refine ⟨rfl, rfl, rfl, fun k b' hb' => ⟨b', hb', rfl, le_max_left _ _⟩, fun k b hb hgone => ?_⟩
  rw [hb] at hgone
  cases hgone

theorem Swept.recount (db : Db) (p : FileBlob → Bool) {g : FileBlob → ℤ} (hg : ∀ b, g b ≤ 0) :
    Swept db { db with blobs := updateRefCounts db.blobs p g } := by
  refine ⟨rfl, rfl, rfl, fun k b' hb' => ?_, fun k b hb hgone => ?_⟩
  · rw [get_updateRefCounts] at hb'
    obtain ⟨b, hb, rfl⟩ := map_eq_some_iff.mp hb'
    refine ⟨b, hb, ?_, ?_⟩
    · split_ifs <;> rfl
    · split_ifs
      · exact le_max_of_le_right (hg b)
      · exact le_max_left _ _
  · rw [get_updateRefCounts, hb] at hgone
    cases hgone

theorem Swept.delete {p : FileBlob → Bool} (hfree : ∀ b ∈ db.blobs.rows, p b = true → isReferenced db b.id = false) :
    Swept db { db with blobs := db.blobs.deleteRows p } := by
  have hget : ∀ k, (db.blobs.deleteRows p).get k = (db.blobs.get k).filter fun b => !p b :=
    fun k => Table.get_deleteWhere db.blobs.toTable p k
  refine ⟨rfl, rfl, rfl, fun k b' hb' => ?_, fun k b hb hgone => ?_⟩
  · rw [hget, filter_eq_some_iff] at hb'
    exact ⟨b', hb'.1, rfl, le_max_left _ _⟩
  · rw [hget, hb, filter_eq_none_iff] at hgone
    have hp : p b = true := by simpa using hgone b rfl
    have hfree' := hfree b (Table.mem_of_get hb) hp
    rwa [Table.key_of_get hb] at hfree'

/-- **A sweep affects no file less.** -/
theorem Swept.affects (h : Swept db db') : affects db' policyId fileId ↔ affects db policyId fileId := by
  have hpolicy : ∀ r ∈ db.revisions.rows, r.retired = false →
      (inPolicy db' policyId r.blobId ↔ inPolicy db policyId r.blobId) := by
    intro r hr hlive
    rw [inPolicy_iff, inPolicy_iff]
    constructor
    · rintro ⟨k, b', hk, hb', hp⟩
      obtain ⟨b, hb, hsame, _⟩ := h.kept k b' hb'
      exact ⟨k, b, hk, hb, hsame ▸ hp⟩
    · rintro ⟨k, b, hk, hb, hp⟩
      -- the revision is a reference, so the row is still there
      cases hb' : db'.blobs.get k with
      | none =>
        have hfree := h.gone k b hb hb'
        have href : isReferenced db k := isReferenced_iff.mpr (.inr ⟨r, hr, hlive, hk⟩)
        rw [hfree] at href
        cases href
      | some b' =>
        obtain ⟨x, hx, hsame, _⟩ := h.kept k b' hb'
        obtain rfl := some.inj (hx.symm.trans hb)
        exact ⟨k, b', hk, hb', hsame.trans hp⟩
  rw [affects_iff, affects_iff, h.histories, h.revisions]
  constructor
  · rintro ⟨hist, hh, hf, r, hr, hrh, hlive, hp⟩
    exact ⟨hist, hh, hf, r, hr, hrh, hlive, (hpolicy r hr hlive).mp hp⟩
  · rintro ⟨hist, hh, hf, r, hr, hrh, hlive, hp⟩
    exact ⟨hist, hh, hf, r, hr, hrh, hlive, (hpolicy r hr hlive).mpr hp⟩

theorem affects_retired {taken : List (ℕ × ℕ)} {s1 s2 : Db} (hret : retireHistories ids db = .ok (taken, s1))
    (hdel : deleteFiles ids s1 = .ok ((), s2)) (hhistories : db'.histories = s2.histories)
    (hrevisions : db'.revisions = s2.revisions)
    (hblobs : ∀ k, (db'.blobs.get k).map FileBlob.policyId = (db.blobs.get k).map FileBlob.policyId) :
    affects db' policyId fileId ↔ affects db policyId fileId ∧ fileId ∉ ids := by
  have hpolicy : ∀ o, inPolicy db' policyId o ↔ inPolicy db policyId o := by
    intro o
    rw [inPolicy_iff, inPolicy_iff]
    constructor
    · rintro ⟨k, b', hk, hb', hp⟩
      have hsame := hblobs k
      rw [hb', map_some] at hsame
      obtain ⟨b, hb, hbp⟩ := map_eq_some_iff.mp hsame.symm
      exact ⟨k, b, hk, hb, hbp.trans hp⟩
    · rintro ⟨k, b, hk, hb, hp⟩
      have hsame := hblobs k
      rw [hb, map_some] at hsame
      obtain ⟨b', hb', hbp⟩ := map_eq_some_iff.mp hsame
      exact ⟨k, b', hk, hb', hbp.trans hp⟩
  rw [affects_iff, affects_iff, hhistories, hrevisions, ← live_retired hret hdel]
  simp only [hpolicy]

/-- **A purge that commits**, and the files it may take. -/
theorem purgeFilesOn_purged {scope : WorkspaceResourceScope} {files : List File}
    (hok : purgeFilesOn scope files db = .ok (ids, db')) :
    Purged db db' ids ∧ ∀ i ∈ ids, ∃ f ∈ files, f.id = i := by
  have hremoved := purge_removes hok
  rcases purgeFilesOn_cases hok with
    ⟨rfl, rfl⟩ | ⟨hids, _, taken, s1, s2, blobs, _, _, _, hret, hdel, hdecr, _, rfl⟩
  · refine ⟨⟨hremoved.1, fun _ _ => by simp, fun _ => rfl⟩, by simp⟩
  · obtain ⟨hblobs, _, _, _, _⟩ := retired_fields hret hdel
    obtain ⟨p, g, rfl, _⟩ := decrementBy_ok hdecr
    have hpolicies : ∀ k, ((updateRefCounts s2.blobs p g).get k).map FileBlob.policyId =
        (db.blobs.get k).map FileBlob.policyId := by
      intro k
      rw [get_updateRefCounts, Option.map_map, hblobs]
      refine congrArg (fun f => (db.blobs.get k).map f) (funext fun b => ?_)
      rw [comp_apply]
      split_ifs <;> rfl
    refine ⟨⟨hremoved.1, fun policyId i => affects_retired hret hdel rfl rfl hpolicies, hpolicies⟩, fun i hi => ?_⟩
    rw [hids] at hi
    obtain ⟨f, hf, rfl⟩ := List.mem_map.mp hi
    obtain ⟨_, hp⟩ := mem_filter.mp hf
    rw [decide_eq_true_eq] at hp
    exact hp.1

theorem stepCleanup_swept (succeeds : Bool) (c : Cleanup) : Swept db (stepCleanup db succeeds c).1 := by
  cases c with simp only [stepCleanup]
  | find blobId =>
    split <;> exact .refl db
  | claim b =>
    cases succeeds with
    | false => exact .refl db
    | true =>
      simp only [stepCleanup, if_true]
      split
      · rename_i blobs hclaim
        unfold claimBlobCleanup at hclaim
        split_ifs at hclaim
        cases hclaim
        exact .recount db _ fun _ => by decide
      · exact .refl db
  | removeObject blobId => exact .refl db
  | delete blobId =>
    split_ifs with hfree
    · split
      · rename_i blobs hdelete
        unfold deleteBlobIfCleanupClaimed at hdelete
        split_ifs at hdelete
        cases hdelete
        refine .delete fun b _ hp => ?_
        rw [decide_eq_true_eq] at hp
        rw [hp.1]
        exact hfree.2
      · exact .refl db
    · exact .refl db
  | restore blobId =>
    split_ifs
    · split
      · rename_i blobs hrestore
        unfold restoreBlobCleanupClaim at hrestore
        split_ifs at hrestore
        cases hrestore
        exact .recount db _ fun _ => by decide
      · exact .refl db
    · exact .refl db

theorem deleteBlobById_swept (h : Migration.deleteBlobById db k = .ok db') : Swept db db' := by
  unfold Migration.deleteBlobById at h
  split_ifs at h with hreferenced
  cases h
  refine .delete fun b _ hp => ?_
  rw [decide_eq_true_eq] at hp
  rw [hp, Bool.eq_false_iff, ne_eq, isReferenced_iff]
  rintro (⟨f, hf, hblob⟩ | ⟨r, hr, _, hblob⟩)
  · exact hreferenced (.inl (List.any_eq_true.mpr ⟨f, hf, decide_eq_true hblob⟩))
  · exact hreferenced (.inr (List.any_eq_true.mpr ⟨r, hr, decide_eq_true hblob⟩))

end Changes

/-! ### Batches -/

section Batches

variable {files : List File} {batches : List ScopedFileBatch}

def filesOf (batches : List ScopedFileBatch) : List File := batches.flatMap ScopedFileBatch.files

theorem filesOf_joinBatch (batches : List ScopedFileBatch) (file : File) (scope : WorkspaceResourceScope) :
    filesOf (joinBatch batches file scope) = filesOf batches ++ [file] := by
  unfold joinBatch
  cases hlast : batches.getLast? with
  | none =>
    rw [getLast?_eq_none_iff.mp hlast]
    rfl
  | some last =>
    obtain ⟨front, rfl⟩ := getLast?_eq_some_iff.mp hlast
    dsimp only
    split_ifs
    · simp [filesOf]
    · simp [filesOf]

/-- **Batches keep the page**, in its order. -/
theorem filesOf_batches (h : contiguousScopeBatches files = .ok batches) : filesOf batches = files := by
  have main : ∀ (l : List File) (done : List ScopedFileBatch), l.foldlM
      (fun batches file => joinBatch batches file <$> resourceScopeForFile file) done = .ok batches →
      filesOf batches = filesOf done ++ l := by
    intro l
    induction l with
    | nil =>
      intro done hok
      cases hok
      rw [append_nil]
    | cons file l ih =>
      intro done hok
      obtain ⟨next, hnext, hok⟩ := bind_ok hok
      obtain ⟨scope, _, rfl⟩ := map_ok_iff.mp hnext
      rw [ih _ hok, filesOf_joinBatch, append_assoc]
      rfl
  exact main files [] h

theorem mem_loadFiles {db : Db} {ids : List ℕ} {f : File} : f ∈ loadFiles db ids ↔ f ∈ db.files.rows ∧ f.id ∈ ids := by
  unfold loadFiles
  rw [Keyset.mem_behind, mem_filter, decide_eq_true_eq]
  constructor
  · rintro ⟨hf, _⟩
    exact hf
  · intro hf
    exact ⟨hf, by simp [Keyset.isBehind]⟩

end Batches

/-! ### A step of the task -/

/-- The files that are listed and not yet purged. -/
def pending : Phase → List ℕ
  | .load fileIds => fileIds
  | .purge batch rest => (filesOf (batch :: rest)).map File.id
  | .settle _ _ _ rest => (filesOf rest).map File.id
  | _ => []

section Steps

variable {cfg : Payload ImpactIdentity} {x x' : World} {t t' : Worker} {a : Act}

/-- Whatever the worker lists, it has just looked up. -/
def Lists (cfg : Payload ImpactIdentity) (db : Db) (t t' : Worker) : Prop :=
  ∀ i ∈ pending t'.phase, i ∈ pending t.phase ∨ affects db cfg.policyId i

/-- The two kinds of steps. -/
inductive Change (cfg : Payload ImpactIdentity) (x : World) (t : Worker) (x' : World) (t' : Worker) : Prop
  | sweep (hswept : Swept x.db x'.db) (hlists : Lists cfg x.db t t')
  | purge {batch : ScopedFileBatch} {rest : List ScopedFileBatch} {ids : List ℕ} (hphase : t.phase = .purge batch rest)
      (hpurged : Purged x.db x'.db ids) (hbatch : ∀ i ∈ ids, ∃ f ∈ batch.files, f.id = i)
      (hlists : Lists cfg x.db t t')

theorem Change.read (hpending : pending t'.phase = []) : Change cfg x t x t' := by
  refine .sweep (.refl _) fun i hi => ?_
  rw [hpending] at hi
  cases hi

theorem pending_nextSession (sessions : List String) : pending (nextSession sessions) = [] := by
  cases sessions <;> rfl

theorem pending_nextBlob (blobIds : List ℕ) : pending (nextBlob blobIds) = [] := by
  cases blobIds <;> rfl

theorem pending_nextBatch (rest : List ScopedFileBatch) : pending (nextBatch rest) = (filesOf rest).map File.id := by
  cases rest <;> rfl

theorem pending_afterCheck (t : Worker) : pending (afterCheck t) = [] := by
  unfold afterCheck
  split_ifs <;> rfl

theorem pending_afterPreview (preview : ImpactIdentity) : pending (afterPreview cfg t preview).phase = [] := by
  unfold afterPreview
  split_ifs <;> rfl

theorem proceed_change {now : ℕ} (h : proceed cfg x t now = some (x', t')) : Change cfg x t x' t' := by
  cases hphase : t.phase with simp only [proceed, hphase] at h
  | idle | failed _ =>
    cases h
  | checkPolicy =>
    split at h
    · cases h
      exact .read rfl
    · split_ifs at h
      · cases h
        exact .read rfl
      · cases h
        exact .read (pending_afterCheck t)
  | previewPolicy | sweep | countBlobs | countTargets | countSessions =>
    split at h <;> cases h <;> exact .read rfl
  | previewBlobs _ | previewImpact _ _ | previewTargets _ _ _ | countFiles _ _ =>
    cases h
    exact .read rfl
  | previewSessions policy blobs impact targets =>
    cases h
    exact .read (pending_afterPreview _)
  | findSessions =>
    cases h
    exact .read (pending_nextSession _)
  | abandon session rest =>
    cases h
    refine .sweep (.refl _) fun i hi => ?_
    rw [show pending (t.goto (nextSession rest)).phase = [] from pending_nextSession rest] at hi
    cases hi
  | list =>
    split at h
    · cases h
      exact .read rfl
    · rename_i id ids hlist
      cases h
      refine .sweep (.refl _) fun i hi => .inr ?_
      have hpage : i ∈ listFileIds x.db cfg.policyId t.runtime.lastProcessedFileId := hlist ▸ hi
      exact mem_affectedFileIds.mp (Keyset.mem_of_mem_page hpage).1
  | load fileIds =>
    split at h
    · cases h
      exact .read rfl
    · cases h
      exact .read rfl
    · rename_i batch rest hbatches
      cases h
      refine .sweep (.refl _) fun i hi => .inl ?_
      obtain ⟨f, hf, rfl⟩ := List.mem_map.mp hi
      rw [filesOf_batches hbatches] at hf
      rw [hphase]
      exact ((mem_loadFiles).mp hf).2
  | purge batch rest =>
    split at h
    · cases h
      exact .read rfl
    · rename_i ids x'' hrun
      cases h
      unfold runPurge at hrun
      split at hrun
      · cases hrun
      · rename_i ids' db hok
        cases hrun
        obtain ⟨hpurged, hbatch⟩ := purgeFilesOn_purged hok
        refine .purge hphase hpurged hbatch fun i hi => .inl ?_
        rw [hphase]
        obtain ⟨f, hf, rfl⟩ := List.mem_map.mp hi
        exact List.mem_map_of_mem (mem_append_right _ hf)
  | settle lastFileId purged cleanups rest =>
    split_ifs at h
    cases h
    refine .sweep (.refl _) fun i hi => .inl ?_
    rw [hphase]
    have hnext : i ∈ pending (nextBatch rest) := hi
    rw [pending_nextBatch] at hnext
    exact hnext
  | countRevisions blobId currentRefs rest =>
    split_ifs at h <;> cases h <;> exact .read rfl
  | deleteBlob blobId rest =>
    split at h
    · cases h
      exact .read rfl
    · rename_i db hdelete
      cases h
      refine .sweep (deleteBlobById_swept hdelete) fun i hi => ?_
      rw [show pending (nextBlob rest) = [] from pending_nextBlob rest] at hi
      cases hi
  | persistSweep | markSucceeded =>
    cases h
    exact .sweep (.refl _) fun i hi => nomatch hi
  | findPolicy =>
    cases h
    refine .read ?_
    split_ifs <;> rfl
  | deletePolicy =>
    split at h
    · cases h
      exact .read rfl
    · rename_i x'' hdelete
      cases h
      unfold deletePolicy at hdelete
      split_ifs at hdelete
      split at hdelete <;> cases hdelete
      exact .sweep (.refl _) fun i hi => nomatch hi

/-- **What a step of the task changes.** -/
theorem step_change (h : step cfg x t a = some (x', t')) : Change cfg x t x' t' := by
  cases a with simp only [step] at h
  | claim =>
    split at h
    · split_ifs at h
      cases h
      exact .read rfl
    · split_ifs at h
      cases h
      exact .read rfl
    · cases h
  | ok now => exact proceed_change h
  | fails =>
    split at h <;> cases h
    exact .read rfl
  | cleanup index succeeds =>
    split at h
    · rename_i lastFileId purged cleanups rest hphase
      split at h
      · cases h
      · cases h
        refine .sweep (stepCleanup_swept succeeds _) fun i hi => .inl ?_
        rw [hphase]
        exact hi
    · cases h
  | crash =>
    cases h
    exact .read rfl

/-! ### What was listed stays affected -/

/-- Every file that is listed and not yet purged is affected, if it is still there. -/
def Listed (cfg : Payload ImpactIdentity) (db : Db) (t : Worker) : Prop :=
  ∀ f ∈ db.files.rows, f.id ∈ pending t.phase → affects db cfg.policyId f.id

theorem Change.keeps (h : Change cfg x t x' t') {f : File} (hf : f ∈ x'.db.files.rows) :
    f ∈ x.db.files.rows ∧ (affects x'.db cfg.policyId f.id ↔ affects x.db cfg.policyId f.id) := by
  cases h with
  | sweep hswept _ => exact ⟨hswept.files ▸ hf, hswept.affects⟩
  | purge _ hpurged _ _ =>
    rw [hpurged.files, mem_filter, decide_eq_true_eq] at hf
    refine ⟨hf.1, ?_⟩
    rw [hpurged.affects]
    exact and_iff_left hf.2

theorem Change.lists (h : Change cfg x t x' t') : Lists cfg x.db t t' := by
  cases h with
  | sweep _ hlists | purge _ _ _ hlists => exact hlists

theorem Listed.own (hlisted : Listed cfg x.db t) (h : Change cfg x t x' t') : Listed cfg x'.db t' := by
  intro f hf hi
  obtain ⟨hf, hiff⟩ := h.keeps hf
  rcases h.lists _ hi with hold | hnew
  · exact hiff.mpr (hlisted f hf hold)
  · exact hiff.mpr hnew

theorem Listed.other {u : Worker} (hlisted : Listed cfg x.db u) (h : Change cfg x t x' t') : Listed cfg x'.db u := by
  intro f hf hi
  obtain ⟨hf, hiff⟩ := h.keeps hf
  exact hiff.mpr (hlisted f hf hi)

/-- **The files that a step removes are affected, and the blob rows are not referenced.** -/
theorem Change.removes (h : Change cfg x t x' t') (hlisted : Listed cfg x.db t) :
    (∀ f ∈ x.db.files.rows, x'.db.files.get f.id = none → affects x.db cfg.policyId f.id) ∧
      ∀ b ∈ x.db.blobs.rows, x'.db.blobs.get b.id = none → isReferenced x.db b.id = false := by
  cases h with
  | sweep hswept _ =>
    constructor
    · intro f hf hgone
      rw [hswept.files, show x.db.files.get f.id = some f from Table.get_of_mem hf] at hgone
      cases hgone
    · intro b hb hgone
      exact hswept.gone b.id b (Table.get_of_mem hb) hgone
  | @purge batch rest ids hphase hpurged hbatch _ =>
    constructor
    · intro f hf hgone
      have hin : f.id ∈ ids := by
        by_contra hout
        have hkeep : f ∈ x'.db.files.rows := by
          rw [hpurged.files]
          exact mem_filter.mpr ⟨hf, decide_eq_true hout⟩
        rw [show x'.db.files.get f.id = some f from Table.get_of_mem hkeep] at hgone
        cases hgone
      obtain ⟨g, hg, hid⟩ := hbatch f.id hin
      refine hlisted f hf ?_
      rw [hphase]
      exact List.mem_map.mpr ⟨g, mem_append_left _ hg, hid⟩
    · intro b hb hgone
      have hsame := hpurged.blobs b.id
      rw [hgone, show x.db.blobs.get b.id = some b from Table.get_of_mem hb] at hsame
      cases hsame

end Steps

/-! ### Among other transactions -/

/-- The workers of one task beside everything else; `loaded` are the file rows that requests have read. -/
structure Running where
  world : World
  loaded : List File := []
  workers : List Worker

/-- A step of a worker, or another transaction: of a request, of a migration out of the policy, or one that leaves
the content and the task alone. `G` is asked of the content that another transaction leaves. -/
inductive RaceStep (cfg : Payload ImpactIdentity) (env : Env) (G : Running → Db → Prop) (x : Running) : Running → Prop
  | task {i : ℕ} {t t' : Worker} {a : Act} {world : World} (ht : x.workers[i]? = some t)
      (hstep : step cfg x.world t a = some (world, t')) :
      RaceStep cfg env G x { x with world, workers := x.workers.set i t' }
  | request {s : Server} (hstep : Db.Step env ⟨x.world.db, x.loaded⟩ s) (hG : G x s.db) :
      RaceStep cfg env G x { x with world := { x.world with db := s.db }, loaded := s.loaded }
  | migrate {m : Migration.Setup} {s s' : Migration.Store} {w w' : Migration.Worker} {a : Migration.Act}
      (hsource : m.sourcePolicyId = cfg.policyId) (hdb : s.db = x.world.db)
      (hstep : Migration.step m s w a = some (s', w')) (hG : G x s'.db) :
      RaceStep cfg env G x { x with world := { x.world with db := s'.db } }
  | other {world : World} (hdb : world.db = x.world.db) (hruntime : world.runtime = x.world.runtime)
      (hsucceeded : world.succeeded = x.world.succeeded) : RaceStep cfg env G x { x with world }

inductive RaceReach (cfg : Payload ImpactIdentity) (env : Env) (G : Running → Db → Prop) (x₀ : Running) : Running → Prop
  | refl : RaceReach cfg env G x₀ x₀
  | step {x x' : Running} (hx : RaceReach cfg env G x₀ x) (hstep : RaceStep cfg env G x x') : RaceReach cfg env G x₀ x'

/-- Another transaction leaves every file that is listed and not yet purged affected, if it leaves the file at all. -/
def StillAffected (cfg : Payload ImpactIdentity) (x : Running) (db : Db) : Prop := ∀ t ∈ x.workers, Listed cfg db t

/-- Whatever a worker removes next: the files have an unretired revision in the policy, and nothing refers to the
blob rows. -/
def DestroysOnlyAffected (cfg : Payload ImpactIdentity) (x : Running) : Prop :=
  ∀ t ∈ x.workers, ∀ a world t', step cfg x.world t a = some (world, t') →
    (∀ f ∈ x.world.db.files.rows, world.db.files.get f.id = none → affects x.world.db cfg.policyId f.id) ∧
      ∀ b ∈ x.world.db.blobs.rows, world.db.blobs.get b.id = none → isReferenced x.world.db b.id = false

section Races

variable {cfg : Payload ImpactIdentity} {env : Env} {x₀ x x' : Running}

theorem listed_step (h : StillAffected cfg x x.world.db) (hstep : RaceStep cfg env (StillAffected cfg) x x') :
    StillAffected cfg x' x'.world.db := by
  cases hstep with
  | @task i t t' a world ht hstep =>
    have hchange := step_change hstep
    intro u hu
    rcases mem_or_eq_of_mem_set hu with hold | rfl
    · exact (h u hold).other hchange
    · exact (h t (mem_of_getElem? ht)).own hchange
  | request _ hG | migrate _ _ _ hG => exact hG
  | other hdb _ _ =>
    intro u hu
    rw [show ({ x with world := _ } : Running).world.db = x.world.db from hdb]
    exact h u hu

theorem listed_run (hidle : ∀ t ∈ x₀.workers, t.phase = .idle) (h : RaceReach cfg env (StillAffected cfg) x₀ x) :
    StillAffected cfg x x.world.db := by
  induction h with
  | refl =>
    intro t ht f _ hf
    rw [hidle t ht] at hf
    cases hf
  | step _ hstep ih => exact listed_step ih hstep

/-- **A forced purge destroys only affected histories**, among transactions that leave what is listed affected. -/
theorem purge_destroys_affected (cfg : Payload ImpactIdentity) (env : Env) {x₀ x : Running}
    (hidle : ∀ t ∈ x₀.workers, t.phase = .idle) (hrun : RaceReach cfg env (StillAffected cfg) x₀ x) :
    DestroysOnlyAffected cfg x := by
  intro t ht a world t' hstep
  exact (step_change hstep).removes (listed_run hidle hrun t ht)

end Races

/-! ### Two runs

A file has an old version in the lost policy and its content in another one. A purge that is left alone destroys it.
When the old version is deleted between the listing and the purge, it is destroyed as well. -/

/-- The attempts of one task, alone. -/
def attempts (cfg : Payload ImpactIdentity) : Lts (World × Worker) Act := ⟨fun x a => step cfg x.1 x.2 a⟩

theorem RaceReach.alone {cfg : Payload ImpactIdentity} {env : Env} {G : Running → Db → Prop} {loaded : List File}
    {y y' : World × Worker} (h : Lts.Reach (attempts cfg) Lts.free y y') :
    RaceReach cfg env G ⟨y.1, loaded, [y.2]⟩ ⟨y'.1, loaded, [y'.2]⟩ := by
  induction h with
  | refl => exact .refl
  | step _ _ ht ih => exact ih.step (.task (i := 0) rfl ht)

/-- The digest repeats some of the impact. -/
def spellImpact (i : ImpactIdentity) : String :=
  i.policy.name ++ " " ++ toString i.blobs.count ++ " " ++ toString i.impact.fileCount ++ " "
    ++ toString i.uploadSessionCount

def lostPolicy : StoragePolicy := ⟨1, "lost", 5⟩

def lostPayload : Payload ImpactIdentity where
  policyId := 1
  policyUpdatedAt := 5
  impactDigest := "lost 1 1 0"
  digest := spellImpact

def movedFile : File where
  id := 1
  ownerUserId := some 1
  teamId := none
  folderId := none
  name := "a.txt"
  blobId := 2
  size := 1
  mimeType := "text/plain"
  updatedAt := 5

/-- The first version in policy 1, the second one in policy 2. -/
def twoPolicies : Db where
  blobs := ⟨⟨[⟨1, "old", 1, .stored, some "old", 1, 1⟩, ⟨2, "new", 2, .stored, some "new", 1, 1⟩], by decide⟩, 3,
    by decide⟩
  files := ⟨⟨[movedFile], by decide⟩, 2, by decide⟩
  histories := ⟨⟨[{ id := 1, fileId := some 1, currentRevisionId := some 2, nextSequence := 3 }], by decide⟩, 2,
    by decide⟩
  revisions := ⟨⟨[⟨1, 1, 1, none, some 1, 1, none, "", false⟩, ⟨2, 1, 2, some 1, some 2, 1, none, "", false⟩],
    by decide⟩, 3, by decide⟩
  usage := ⟨[{ scope := .personal 1, storageUsed := 2, storageQuota := 10 }], by decide⟩

def lostWorld (db : Db) : World where
  db := db
  policies := ⟨[lostPolicy], by decide⟩
  placementTargets := []
  sessions := .empty
  shares := .empty

/-- The page is listed, and its batch is next. -/
def atPurge : Worker := ⟨{}, .purge ⟨.personal 1, [movedFile]⟩ []⟩

def go : Act := .ok 0

theorem lost_run : Lts.Reach (attempts lostPayload) Lts.free (lostWorld twoPolicies, {}) (lostWorld twoPolicies, atPurge) := by
  refine Lts.reach_of_run (l := [.claim, go, go, go, go, go, go, go, go, go]) ?_
  rfl

theorem purge_destroys_affected_loaded : ∃ x, RaceReach lostPayload sampleEnv (StillAffected lostPayload)
    ⟨lostWorld twoPolicies, [], [{}]⟩ x ∧ x.loaded = [movedFile] ∧ x.workers = [atPurge] ∧
      DestroysOnlyAffected lostPayload x := by
  have hlisted : StillAffected lostPayload ⟨lostWorld twoPolicies, [], [atPurge]⟩ twoPolicies := by
    intro t ht f hf _
    obtain rfl := mem_singleton.mp hf
    decide
  have hload : RaceStep lostPayload sampleEnv (StillAffected lostPayload) ⟨lostWorld twoPolicies, [], [atPurge]⟩
      ⟨lostWorld twoPolicies, [movedFile], [atPurge]⟩ :=
    .request (.load (mem_singleton_self movedFile)) hlisted
  have hrun := (RaceReach.alone lost_run).step hload
  refine ⟨_, hrun, rfl, rfl, purge_destroys_affected lostPayload sampleEnv ?_ hrun⟩
  intro t ht
  obtain rfl := mem_singleton.mp ht
  rfl

theorem not_only_affected {db : Db} {loaded : List File} (hmem : movedFile ∈ db.files.rows)
    (haffects : affects db 1 1 = false)
    (hpurge : ((step lostPayload (lostWorld db) atPurge go).map fun r => (r.1.db.files.get 1).isNone) = some true) :
    ¬ DestroysOnlyAffected lostPayload ⟨lostWorld db, loaded, [atPurge]⟩ := by
  intro honly
  obtain ⟨⟨world, t'⟩, hstep, hgone⟩ := map_eq_some_iff.mp hpurge
  have hremoved := (honly atPurge (mem_singleton_self _) go world t' hstep).1
  have hcontra : affects db 1 1 := hremoved movedFile hmem (isNone_iff_eq_none.mp hgone)
  rw [haffects] at hcontra
  cases hcontra

/-- The old version is deleted. -/
def onePolicy : Db :=
  match deleteVersionInner (.personal 1) movedFile 1 twoPolicies with
  | .ok (_, db) => db
  | .error _ => twoPolicies

/-- **A stale page destroys a file** whose last version in the policy is gone. -/
theorem stale_page_purged : ¬ ∀ (cfg : Payload ImpactIdentity) (env : Env) (x₀ x : Running),
    (∀ t ∈ x₀.workers, t.phase = .idle) → RaceReach cfg env (fun _ _ => True) x₀ x → DestroysOnlyAffected cfg x := by
  intro hall
  have hload : RaceStep lostPayload sampleEnv (fun _ _ => True) ⟨lostWorld twoPolicies, [], [atPurge]⟩
      ⟨lostWorld twoPolicies, [movedFile], [atPurge]⟩ :=
    .request (.load (mem_singleton_self movedFile)) trivial
  have hdelete : RaceStep lostPayload sampleEnv (fun _ _ => True) ⟨lostWorld twoPolicies, [movedFile], [atPurge]⟩
      ⟨lostWorld onePolicy, [movedFile], [atPurge]⟩ := by
    have hok : deleteVersionInner (.personal 1) movedFile 1 twoPolicies = .ok ((), onePolicy) := rfl
    exact .request (.deleteVersion (mem_singleton_self movedFile) rfl hok) trivial
  have hrun := ((RaceReach.alone lost_run).step hload).step hdelete
  have hidle : ∀ t ∈ [({} : Worker)], t.phase = .idle := by decide
  have hunaffected : ¬ DestroysOnlyAffected lostPayload ⟨lostWorld onePolicy, [movedFile], [atPurge]⟩ :=
    not_only_affected (mem_singleton_self movedFile) (by decide) (by decide)
  exact hunaffected (hall lostPayload sampleEnv _ _ hidle hrun)

end AsterDrive.Storage.ForcedPurge
