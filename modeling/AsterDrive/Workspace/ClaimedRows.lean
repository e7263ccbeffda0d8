import AsterDrive.Workspace.Runs

/-!
# ClaimedRows — who leaves claimed blob rows alone

A cleanup relies on the rows that it has claimed: nobody else may change or revive them. `Sparing x` says it of a
transaction, and is kept by sequencing, so the uploads and the copies have it because their statements do. A purge has
it in orderly books only, since its decrement does not look at the claim marker.
-/

namespace AsterDrive.Db

open List

/-- Claimed rows stay as they are. -/
def SparesClaims (t t' : Blobs) : Prop :=
  ∀ k b, t.get k = some b → b.refCount = blobCleanupClaimedRefCount → t'.get k = some b

theorem SparesClaims.refl (t : Blobs) : SparesClaims t t := fun _ _ hb _ => hb

theorem SparesClaims.trans {t1 t2 t3 : Blobs} (h1 : SparesClaims t1 t2) (h2 : SparesClaims t2 t3) : SparesClaims t1 t3 :=
  fun k b hb hclaimed => h2 k b (h1 k b hb hclaimed) hclaimed

theorem Shifted.spares {t t' : Blobs} {d : ℕ → ℤ} (h : Shifted t t' d) : SparesClaims t t' := by
  intro k b hb hclaimed
  have hzero : d k = 0 := by
    by_contra hne
    have hpos := h.active k b hb hne
    rw [hclaimed] at hpos
    exact absurd hpos (by decide)
  rw [h.old k b hb, hzero, add_zero]

/-- The transaction leaves claimed rows alone. -/
structure Sparing {α : Type} (x : Txn α) : Prop where
  spares : ∀ s a s', x s = .ok (a, s') → SparesClaims s.blobs s'.blobs

namespace Sparing

section Rules

variable {α β : Type} {x : Txn α} {f : α → Txn β}

theorem of_blobs (h : ∀ s a s', x s = .ok (a, s') → s'.blobs = s.blobs) : Sparing x := by
  constructor
  intro s a s' hok
  rw [h s a s' hok]
  exact .refl _

theorem bind (hx : Sparing x) (hf : ∀ a, Sparing (f a)) : Sparing (x >>= f) := by
  constructor
  intro s b s' hok
  obtain ⟨a, s1, h1, h2⟩ := bind_txn hok
  exact (hx.spares s a s1 h1).trans ((hf a).spares s1 b s' h2)

theorem pure (a : α) : Sparing (Pure.pure a) := by
  apply of_blobs
  intro s b s' hok
  rw [(pure_txn_ok.mp hok).2]

theorem get : Sparing MonadState.get := by
  apply of_blobs
  intro s b s' hok
  rw [← (get_txn_ok.mp hok).2]

theorem ensure (p : Prop) [Decidable p] (e : AsterError) : Sparing (Db.ensure p e) := by
  apply of_blobs
  intro s b s' hok
  rw [(ensure_ok.mp hok).2]

theorem orFail (o : Option α) (e : AsterError) : Sparing (Db.orFail o e) := by
  apply of_blobs
  intro s b s' hok
  rw [(orFail_ok.mp hok).2]

theorem check (o : Except AsterError α) : Sparing (Db.check o) := by
  apply of_blobs
  intro s b s' hok
  rw [(check_ok.mp hok).2]

theorem mapM {l : List α} (hf : ∀ a, Sparing (f a)) : Sparing (l.mapM f) := by
  induction l with
  | nil => exact pure []
  | cons a l ih =>
    rw [mapM_cons]
    exact (hf a).bind fun b => ih.bind fun bs => pure (b :: bs)

theorem ite {p : Prop} [Decidable p] {y : Txn α} (hx : Sparing x) (hy : Sparing y) : Sparing (if p then x else y) := by
  split_ifs
  · exact hx
  · exact hy

end Rules

/-! ### Statements -/

theorem increment (blobId : ℕ) : Sparing (incrementOn blobId) := by
  constructor
  intro s u s' hok
  obtain ⟨t, ht, rfl⟩ := onBlobs_ok hok
  obtain ⟨t', hinc, heq⟩ := map_ok_iff.mp ht
  cases heq
  exact (increment_ok hinc).1.spares

theorem incrementMany (deltas : List (ℕ × ℤ)) : Sparing (incrementManyOn deltas) := by
  constructor
  intro s u s' hok
  obtain ⟨t, ht, rfl⟩ := onBlobs_ok hok
  obtain ⟨t', hinc, heq⟩ := map_ok_iff.mp ht
  cases heq
  exact (incrementBy_ok hinc).spares

theorem adoptOrInsert (hash : String) (size policyId : ℕ) (backing : FileBlobBacking) (storagePath : Option String)
    (exhausted : String) :
    Sparing (onBlobs fun t => adoptOrInsertBlob t hash size policyId backing storagePath exhausted) := by
  constructor
  intro s b s' hok
  obtain ⟨t, ht, rfl⟩ := onBlobs_ok hok
  exact (adoptOrInsert_ok ht).1.shifted.spares

theorem persistPreuploaded (prepared : PreparedNonDedupBlobUpload) :
    Sparing (onBlobs fun t => persistPreuploadedBlob t prepared) := by
  constructor
  intro s b s' hok
  obtain ⟨t, ht, rfl⟩ := onBlobs_ok hok
  exact (persistPreuploaded_ok ht).1.shifted.spares

theorem charge (scope : WorkspaceResourceScope) (delta : ℤ) : Sparing (updateStorageUsedFor scope delta) := by
  apply of_blobs
  intro s u s' hok
  unfold updateStorageUsedFor at hok
  split at hok
  · cases hok
  · cases hok
    rfl

theorem checkQuota (scope : WorkspaceStorageScope) (n : ℤ) : Sparing (checkQuotaOn scope n) := by
  apply of_blobs
  intro s u s' hok
  rw [checkQuotaOn_ok hok]

theorem checkQuotaIfPositive (scope : WorkspaceStorageScope) (n : ℤ) : Sparing (Db.checkQuotaIfPositive scope n) := by
  apply of_blobs
  intro s u s' hok
  rw [checkQuotaIfPositive_ok hok]

theorem chargeIfNonzero (scope : WorkspaceStorageScope) (delta : ℤ) : Sparing (Db.chargeIfNonzero scope delta) :=
  ite (charge _ _) (pure ())

theorem insertFile (d : FileDraft) (conflict : AsterError) : Sparing (Db.insertFile d conflict) := by
  apply of_blobs
  intro s f s' hok
  unfold Db.insertFile at hok
  split_ifs at hok
  cases hok
  rfl

theorem createInitial (file : File) (etag : String) : Sparing (Db.createInitial file etag) := by
  apply of_blobs
  intro s r s' hok
  rw [createInitial_ok hok]
  rfl

theorem createFileFromBlob (nextCopyName : String → String) (mode : NewFileNameMode) (d : FileDraft) (etag : String) :
    Sparing (Db.createFileFromBlob nextCopyName mode d etag) := by
  refine bind (of_blobs fun s _ s' hok => ?_) fun created => (createInitial created etag).bind fun _ => pure created
  obtain ⟨name, hins⟩ := insertFileByMode_ok hok
  rw [hins.state]

theorem overwriteContent (current : File) (blob : FileBlob) (mime : String) (now : ℕ) (expected : ExpectedHead)
    (etag : String) : Sparing (Db.overwriteContent current blob mime now expected etag) := by
  refine bind (of_blobs fun s _ s' hok => by rw [(lockHistory_ok hok).1]) fun locked => ?_
  refine bind (of_blobs fun s _ s' hok => ?_) fun updated => ?_
  · unfold updateFileContent at hok
    cases hok
    rfl
  · refine bind (of_blobs fun s _ s' hok => ?_) fun _ => pure updated
    obtain ⟨h, _, _, rfl⟩ := appendExpecting_ok hok
    rfl

/-! ### Uploads -/

variable {nextCopyName : String → String} {scope : WorkspaceStorageScope} {mime etag : String} {now : ℕ}

theorem storeFromTemp {blob : TempBlob} {target : StoreTarget} :
    Sparing (Db.storeFromTemp nextCopyName scope blob target mime now etag) := by
  refine (checkQuotaIfPositive _ _).bind fun _ => bind ?_ fun row => bind ?_ fun result => ?_
  · cases blob with
    | contentAddressed fileHash storagePath size policyId => exact adoptOrInsert ..
    | preuploaded prepared => exact persistPreuploaded prepared
  · cases target with
    | newFile folderId name mode => exact createFileFromBlob ..
    | overwrite oldFile precondition expected =>
      refine bind (of_blobs fun s _ s' hok => ?_) fun current => overwriteContent ..
      rw [(revalidateOverwriteTarget_ok hok).1]
  · exact (chargeIfNonzero _ _).bind fun _ => pure result

variable {folderId : Option ℕ} {name : String}

theorem storePreuploaded {prepared : PreparedNonDedupBlobUpload} {overwritten : Option File} :
    Sparing (storePreuploadedNondedup nextCopyName scope prepared overwritten folderId name mime now etag) := by
  refine (checkQuotaIfPositive _ _).bind fun _ => (persistPreuploaded prepared).bind fun row => bind ?_ fun result =>
    (chargeIfNonzero _ _).bind fun _ => pure result
  cases overwritten with
  | none => exact createFileFromBlob ..
  | some oldFile =>
    refine bind (of_blobs fun s _ s' hok => ?_) fun current => overwriteContent ..
    rw [(revalidatePreuploadedOverwriteTarget_ok hok).1]

theorem createEmpty {mode : NewFileNameMode} {policyId : ℕ} :
    Sparing (Db.createEmpty nextCopyName scope folderId name mode policyId mime now etag) :=
  bind (adoptOrInsert ..) fun _ => createFileFromBlob ..

theorem finalizeUpload {upload : VerifiedUpload} {completed : Except AsterError Unit} :
    Sparing (finalizeUploadSession nextCopyName scope upload folderId name mime now etag completed) := by
  refine bind ?_ fun blob => (createFileFromBlob ..).bind fun created => (charge _ _).bind fun _ =>
    (check _).bind fun _ => pure created
  cases upload with
  | findOrCreate fileHash storagePath size policyId => exact adoptOrInsert ..
  | preuploaded prepared => exact persistPreuploaded prepared

/-! ### Copies -/

theorem createMany (drafts : List FileDraft) : Sparing (Db.createMany drafts) := mapM fun d => insertFile d _

theorem createInitialMany (files : List File) (etag : File → String) : Sparing (Db.createInitialMany files etag) := by
  refine (ensure _ _).bind fun _ => bind (mapM fun file => of_blobs fun s _ s' hok => ?_) fun _ => get.bind fun s =>
    (ensure _ _).bind fun _ => bind (mapM fun history => ?_) fun _ => get.bind fun s => (ensure _ _).bind fun _ =>
      bind (of_blobs fun s _ s' hok => ?_) fun _ => pure _
  · obtain ⟨_, rfl, _⟩ := insertHistory_ok hok
    rfl
  · refine (orFail _ _).bind fun fileId => (orFail _ _).bind fun file => of_blobs fun s _ s' hok => ?_
    obtain ⟨mk, hmk, rfl, rfl, rfl⟩ := insertRevision_ok hok
    rfl
  · unfold publishHeads at hok
    dsimp only at hok
    split_ifs at hok
    cases hok
    rfl

theorem copyBatch {normalizeName : String → String} {specs : List CopySpec}
    {destFolderId : Option ℕ} {etag : File → String} :
    Sparing (batchDuplicateFileRecords normalizeName scope specs destFolderId now etag) :=
  ite (pure []) <| (check _).bind fun _ => (charge _ _).bind fun _ => (check _).bind fun _ =>
    (incrementMany _).bind fun _ => (createMany _).bind fun _ => get.bind fun _ => (ensure _ _).bind fun _ =>
      (mapM fun file => createInitial file _).bind fun _ => pure _

theorem copyOne {spec : CopySpec} {etag : File → String} : Sparing (duplicateFileRecord scope spec now etag) :=
  get.bind fun _ => (check _).bind fun _ => (checkQuota _ _).bind fun _ => (increment _).bind fun _ =>
    (insertFile _ _).bind fun newFile => (charge _ _).bind fun _ => (createInitial newFile _).bind fun _ => pure newFile

theorem copyTree {specs : List CopySpec} {etag : File → String} :
    Sparing (batchDuplicateToMixedFolders scope specs now etag) :=
  ite (pure []) <| (check _).bind fun _ => (checkQuota _ _).bind fun _ => (check _).bind fun _ =>
    (incrementMany _).bind fun _ => (createMany _).bind fun _ => get.bind fun _ =>
      (mapM fun _ => orFail _ _).bind fun created => (ensure _ _).bind fun _ =>
        (createInitialMany created etag).bind fun _ => (charge _ _).bind fun _ => pure created

end Sparing

/-! ### Uploads, copies and purges -/

/-- The transactions of uploads and copies, and the reads of the rows that are copied. -/
inductive Contributes (env : Env) (s : Server) : Server → Prop
  | load {file : File} (hfile : file ∈ s.db.files.rows) : Contributes env s { s with loaded := file :: s.loaded }
  | store {scope : WorkspaceStorageScope} {body : Body} {target : StoreTarget} {mime etag : String} {now : ℕ} {f : File}
      {db : Db} (hsent : body.Sent env)
      (hok : storeFromTemp env.nextCopyName scope (body.temp env) target mime now etag s.db = .ok (f, db)) :
      Contributes env s { s with db }
  | storePreuploaded {scope : WorkspaceStorageScope} {prepared : PreparedNonDedupBlobUpload} {overwritten : Option File}
      {folderId : Option ℕ} {name mime etag : String} {now : ℕ} {f : File} {db : Db}
      (hok : storePreuploadedNondedup env.nextCopyName scope prepared overwritten folderId name mime now etag s.db =
        .ok (f, db)) : Contributes env s { s with db }
  | createEmpty {scope : WorkspaceStorageScope} {folderId : Option ℕ} {name mime etag : String} {mode : NewFileNameMode}
      {policyId now : ℕ} {f : File} {db : Db}
      (hok : createEmpty env.nextCopyName scope folderId name mode policyId mime now etag s.db = .ok (f, db)) :
      Contributes env s { s with db }
  | finalizeUpload {scope : WorkspaceStorageScope} {upload : FinishedUpload} {folderId : Option ℕ} {name mime etag : String}
      {now : ℕ} {completed : Except AsterError Unit} {f : File} {db : Db} (hsent : upload.Sent env)
      (hok : finalizeUploadSession env.nextCopyName scope (upload.verified env) folderId name mime now etag completed s.db =
        .ok (f, db)) : Contributes env s { s with db }
  | copyBatch {scope : WorkspaceStorageScope} {specs : List CopySpec} {destFolderId : Option ℕ} {now : ℕ}
      {etag : File → String} {fs : List File} {db : Db} (hsrc : ∀ c ∈ specs, c.src ∈ s.loaded)
      (hok : batchDuplicateFileRecords env.normalizeName scope specs destFolderId now etag s.db = .ok (fs, db)) :
      Contributes env s { s with db }
  | copyOne {scope : WorkspaceStorageScope} {spec : CopySpec} {now : ℕ} {etag : File → String} {f : File} {db : Db}
      (hsrc : spec.src ∈ s.loaded) (hok : duplicateFileRecord scope spec now etag s.db = .ok (f, db)) :
      Contributes env s { s with db }
  | copyTree {scope : WorkspaceStorageScope} {specs : List CopySpec} {now : ℕ} {etag : File → String} {fs : List File}
      {db : Db} (hsrc : ∀ c ∈ specs, c.src ∈ s.loaded)
      (hok : batchDuplicateToMixedFolders scope specs now etag s.db = .ok (fs, db)) : Contributes env s { s with db }

section

variable {env : Env} {s s' : Server}

theorem Contributes.toStep (h : Contributes env s s') : Step env s s' := by
  cases h with
  | load hfile => exact .load hfile
  | store hsent hok => exact .store hsent hok
  | storePreuploaded hok => exact .storePreuploaded hok
  | createEmpty hok => exact .createEmpty hok
  | finalizeUpload hsent hok => exact .finalizeUpload hsent hok
  | copyBatch hsrc hok => exact .copyBatch hsrc hok
  | copyOne hsrc hok => exact .copyOne hsrc hok
  | copyTree hsrc hok => exact .copyTree hsrc hok

/-- **Uploads and copies leave claimed rows alone.** -/
theorem Contributes.spares (h : Contributes env s s') : SparesClaims s.db.blobs s'.db.blobs := by
  cases h with
  | load hfile => exact .refl _
  | store hsent hok => exact Sparing.storeFromTemp.spares _ _ _ hok
  | storePreuploaded hok => exact Sparing.storePreuploaded.spares _ _ _ hok
  | createEmpty hok => exact Sparing.createEmpty.spares _ _ _ hok
  | finalizeUpload hsent hok => exact Sparing.finalizeUpload.spares _ _ _ hok
  | copyBatch hsrc hok => exact Sparing.copyBatch.spares _ _ _ hok
  | copyOne hsrc hok => exact Sparing.copyOne.spares _ _ _ hok
  | copyTree hsrc hok => exact Sparing.copyTree.spares _ _ _ hok

end

theorem mem_of_mem_countRefs {refs : List (ℕ × ℕ)} {k : ℕ} (h : k ∈ (countRefs refs).map Prod.fst) :
    k ∈ refs.map Prod.fst := by
  have main : ∀ (l : List (ℕ × ℕ)) (m : List (ℕ × ℤ)),
      k ∈ (l.foldl (fun counts ref => addDelta ref.1 1 counts) m).map Prod.fst →
        k ∈ m.map Prod.fst ∨ k ∈ l.map Prod.fst := by
    intro l
    induction l with
    | nil =>
      intro m hk
      exact .inl hk
    | cons ref l ih =>
      intro m hk
      rcases ih _ hk with hk | hk
      · rcases keys_addDelta.mp hk with rfl | hk
        · exact .inr mem_cons_self
        · exact .inl hk
      · exact .inr (mem_cons_of_mem _ hk)
  exact (main refs [] h).resolve_left not_mem_nil

/-- **A purge leaves claimed rows alone**: no live revision refers to them, so none of its decrements is theirs. -/
theorem purge_spares {W : Watched} {db db' : Db} {scope : WorkspaceResourceScope} {files : List File} {ids : List ℕ}
    (h : Consistent W db) (hcounts : W.counts) (hok : purgeFilesOn scope files db = .ok (ids, db')) :
    SparesClaims db.blobs db'.blobs := by
  rcases purgeFilesOn_cases hok with ⟨_, rfl⟩ | ⟨_, _, taken, s1, s2, blobs, _, _, _, hret, hdel, hdecr, _, rfl⟩
  · exact .refl _
  obtain ⟨hsame, _, _, _, _⟩ := retired_fields hret hdel
  intro k b hb hclaimed
  have hrefs : refs db.revisions k = 0 := by
    have hpos := refs_nonneg db.revisions k
    rcases (h.balanced hcounts).row k b hb with hrow | ⟨_, hzero, _⟩
    · rw [hclaimed, Pi.zero_apply] at hrow
      unfold blobCleanupClaimedRefCount at hrow
      omega
    · exact hzero
  -- a decrement stands for a live revision
  have hzero : totalDelta (decrementsOf s2 taken) k = 0 := by
    refine sum_eq_zero fun x hx => ?_
    obtain ⟨e, he, rfl⟩ := mem_map.mp hx
    refine if_neg ?_
    rintro rfl
    have hkey : e.1 ∈ taken.map Prod.fst := mem_of_mem_countRefs (mem_map_of_mem (mem_filter.mp he).1)
    obtain ⟨⟨k, n⟩, htaken, rfl⟩ := mem_map.mp hkey
    rw [taken_eq hret] at htaken
    obtain ⟨r, hr, hrk⟩ := mem_filterMap.mp htaken
    obtain ⟨hrow, hp⟩ := mem_filter.mp hr
    rw [decide_eq_true_eq] at hp
    obtain ⟨j, hj, hjk⟩ := Option.map_eq_some_iff.mp hrk
    have hlive := refs_pos_of_mem hrow hp.2 ((Prod.mk.inj hjk).1 ▸ hj)
    omega
  obtain ⟨_, _, _, hget⟩ := decrementBy_ok hdecr
  rw [hget k, hsame, hb, Option.map_some, if_pos hzero]

end AsterDrive.Db
