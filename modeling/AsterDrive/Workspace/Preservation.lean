import AsterDrive.Workspace.Invariant

/-!
# Preservation — every transaction keeps the books

For each transaction: when it commits, the books it found in order are in order again
(`Underway W s s' ∅ 0 0`). The proofs follow the statements of the transaction and apply one rule of
`Invariant` to each.
-/

namespace AsterDrive.Db

open List Option Table

variable {W : Watched} {s0 s s' : Db} {P : Set ℕ} {δ : ℕ → ℤ} {ε : WorkspaceResourceScope → ℤ}

/-! ### Statements that several transactions share -/

theorem onBlobs_ok {α : Type} {f : Blobs → Except AsterError (α × Blobs)} {a : α} (hok : onBlobs f s = .ok (a, s')) :
    ∃ t', f s.blobs = .ok (a, t') ∧ s' = { s with blobs := t' } := by
  unfold onBlobs at hok
  split at hok
  · simp at hok
  · rename_i x t' hf
    cases hok
    exact ⟨t', hf, rfl⟩

variable {scope : WorkspaceStorageScope}

theorem checkQuotaOn_ok {n : ℤ} {u : Unit} (hok : checkQuotaOn scope n s = .ok (u, s')) : s' = s := by
  replace hok := bind_get_ok.mp hok
  exact (check_ok.mp hok).2.symm

theorem checkQuotaIfPositive_ok {n : ℤ} {u : Unit} (hok : checkQuotaIfPositive scope n s = .ok (u, s')) : s' = s := by
  unfold checkQuotaIfPositive at hok
  split_ifs at hok
  · exact checkQuotaOn_ok hok
  · exact (pure_txn_ok.mp hok).2.symm

variable {current : File}

theorem enforceFileMutation_ok {file : File} (hok : enforceFileMutation file s = .ok (current, s')) :
    s' = s ∧ current ∈ s.files.rows ∧ current.id = file.id ∧ current.workspace = file.workspace := by
  have hok1 := bind_get_ok.mp hok
  obtain ⟨x, hx, hok2⟩ := bind_orFail_ok.mp hok1
  obtain ⟨hws, hok3⟩ := bind_ensure_ok.mp hok2
  cases hok3
  exact ⟨rfl, mem_of_get hx, key_of_get hx, hws⟩

theorem revalidateOverwriteTarget_ok {oldFile : File} {precondition : Option FileWritePrecondition}
    (hok : revalidateOverwriteTarget scope oldFile precondition s = .ok (current, s')) :
    s' = s ∧ current ∈ s.files.rows ∧ current.workspace = some scope.resource := by
  obtain ⟨x, t, henf, hok1⟩ := bind_txn hok
  obtain ⟨rfl, hx, _⟩ := enforceFileMutation_ok henf
  obtain ⟨_, hscope, hok2⟩ := bind_check_ok.mp hok1
  obtain ⟨_, hok3⟩ := bind_ensure_ok.mp hok2
  cases hok3
  exact ⟨rfl, hx, workspace_of_ensureActive hscope⟩

theorem revalidatePreuploadedOverwriteTarget_ok {oldFile : File}
    (hok : revalidatePreuploadedOverwriteTarget scope oldFile s = .ok (current, s')) :
    s' = s ∧ current ∈ s.files.rows ∧ current.workspace = some scope.resource := by
  obtain ⟨x, t, henf, hok1⟩ := bind_txn hok
  obtain ⟨rfl, hx, _⟩ := enforceFileMutation_ok henf
  obtain ⟨_, hscope, hok2⟩ := bind_check_ok.mp hok1
  obtain ⟨_, hok3⟩ := bind_ensure_ok.mp hok2
  cases hok3
  exact ⟨rfl, hx, workspace_of_ensureActive hscope⟩

theorem bytesOn_zero (w : WorkspaceResourceScope) : bytesOn w 0 = 0 := by
  funext x
  unfold bytesOn
  split_ifs <;> rfl

/-- Hash and size are those of one of the contents. -/
def Watched.Describes (W : Watched) (fileHash : String) (size : ℕ) : Prop :=
  ∃ c ∈ W.contents, fileHash = W.digest c ∧ size = c.length

/-- A blob that is stored by its content has that content's hash and size. -/
def Watched.Admits (W : Watched) : TempBlob → Prop
  | .contentAddressed fileHash _ size _ => W.Describes fileHash size
  | .preuploaded _ => True

/-- A finished upload is named after its content, or by a key that is no content hash. -/
def Watched.Verifies (W : Watched) : VerifiedUpload → Prop
  | .findOrCreate fileHash _ size _ =>
    W.Describes fileHash size ∨ isContentSha256BlobKey fileHash = false
  | .preuploaded _ => True

namespace Underway

theorem settle {δ' : ℕ → ℤ} {ε' : WorkspaceResourceScope → ℤ} (h : Underway W s0 s P δ ε)
    (hδ : W.counts → δ = δ') (hε : W.accounts → ε = ε') : Underway W s0 s P δ' ε' :=
  ⟨h.ledger, fun hB => hδ hB ▸ h.balanced hB, fun hA => hε hA ▸ h.accounts hA, h.since⟩

variable {u : Unit}

theorem increment (h : Underway W s0 s P δ ε) {k : ℕ}
    (hok : incrementOn k s = .ok (u, s')) : Underway W s0 s' P (δ + oneRef k) ε := by
  obtain ⟨t', ht, rfl⟩ := onBlobs_ok hok
  obtain ⟨x, hinc, hx⟩ := map_ok_iff.mp ht
  obtain ⟨_, rfl⟩ := Prod.mk.inj hx
  refine h.shift (increment_ok hinc).1 fun _ b hb hle => ?_
  have hlt := x.below b hb
  rw [increment_next hinc] at hlt
  omega

theorem incrementMany (h : Underway W s0 s P δ ε) {deltas : List (ℕ × ℤ)}
    (hok : incrementManyOn deltas s = .ok (u, s')) :
    Underway W s0 s' P (δ + totalDelta deltas) ε := by
  obtain ⟨t', ht, rfl⟩ := onBlobs_ok hok
  obtain ⟨x, hinc, hx⟩ := map_ok_iff.mp ht
  obtain ⟨_, rfl⟩ := Prod.mk.inj hx
  refine h.shift (incrementBy_ok hinc) fun _ b hb hle => ?_
  have hlt := x.below b hb
  rw [incrementBy_next hinc] at hlt
  omega

variable {t' : Blobs} {b : FileBlob}

theorem persisted (h : Underway W s0 s P δ ε)
    (hp : Persisted s.blobs t' b) (hgen : W.accounts → s.blobs.next ≤ b.id → W.Genuine b) :
    Underway W s0 { s with blobs := t' } P (δ + oneRef b.id) ε := by
  refine h.shift hp.shifted fun hA x hx hle => ?_
  obtain rfl := hp.fresh x hx hle
  exact hgen hA hle

theorem preuploaded (h : Underway W s0 s P δ ε) {prepared : PreparedNonDedupBlobUpload}
    (hok : persistPreuploadedBlob s.blobs prepared = .ok (b, t')) :
    Underway W s0 { s with blobs := t' } P (δ + oneRef b.id) ε ∧ t'.get b.id = some b ∧ b.size = prepared.size := by
  obtain ⟨hp, _, hsize, hkey, hbacking, _⟩ := persistPreuploaded_ok hok
  refine ⟨h.persisted hp ?_, hp.get, hsize⟩
  intro hA _
  unfold Watched.Genuine
  rw [hbacking]
  intro c hc heq
  rw [heq, W.hex hA c hc] at hkey
  simp at hkey

theorem findOrCreate (h : Underway W s0 s P δ ε) {fileHash storagePath : String} {size policyId : ℕ}
    (hver : W.accounts → W.Describes fileHash size ∨ isContentSha256BlobKey fileHash = false)
    (hok : findOrCreateBlob s.blobs fileHash size policyId storagePath = .ok (b, t')) :
    Underway W s0 { s with blobs := t' } P (δ + oneRef b.id) ε ∧ t'.get b.id = some b := by
  obtain ⟨hp, hrow⟩ := adoptOrInsert_ok hok
  refine ⟨h.persisted hp ?_, hp.get⟩
  intro hA hle
  rcases hrow with ⟨x, hx, _⟩ | ⟨_, hsize, hhash, hbacking, _⟩
  · have hlt := SerialTable.lt_next_of_get hx
    omega
  · unfold Watched.Genuine
    rw [hbacking]
    intro c' hc' heq
    rw [hhash] at heq
    rcases hver hA with ⟨c, hc, hcd, hcl⟩ | hkey
    · rw [hsize, hcl]
      exact W.sizes hA c hc c' hc' (hcd.symm.trans heq)
    · rw [heq, W.hex hA c' hc'] at hkey
      simp at hkey

theorem size_of_content (h : Underway W s0 s P δ ε) (hA : W.accounts) {fileHash storagePath : String}
    {size policyId : ℕ} (hdesc : W.Describes fileHash size)
    (hok : findOrCreateBlob s.blobs fileHash size policyId storagePath = .ok (b, t')) :
    b.size = size := by
  obtain ⟨_, ⟨x, hx, hxsize, hkey⟩ | ⟨_, hsize, _⟩⟩ := adoptOrInsert_ok hok
  · obtain ⟨c, hc, hcd, hcl⟩ := hdesc
    unfold hasBlobKey at hkey
    rw [decide_eq_true_eq] at hkey
    have hgen := (h.accounts hA).genuine x (mem_of_get hx)
    unfold Watched.Genuine at hgen
    rw [hkey.2.2] at hgen
    rw [← hxsize, hcl]
    exact hgen c hc (hkey.1.trans hcd)
  · exact hsize

theorem persistTemp (h : Underway W s0 s P δ ε) {blob : TempBlob} {row : FileBlob}
    (hadm : W.accounts → W.Admits blob) (hok : persistTempBlob blob s = .ok (row, s')) :
    Underway W s0 s' P (δ + oneRef row.id) ε ∧ s'.blobs.get row.id = some row ∧
      (W.accounts → row.size = blob.size) := by
  unfold persistTempBlob at hok
  cases blob with
  | contentAddressed fileHash storagePath size policyId =>
    obtain ⟨t', ht, rfl⟩ := onBlobs_ok hok
    obtain ⟨hnext, hget⟩ := h.findOrCreate (fun hA => .inl (hadm hA)) ht
    exact ⟨hnext, hget, fun hA => h.size_of_content hA (hadm hA) ht⟩
  | preuploaded prepared =>
    obtain ⟨t', ht, rfl⟩ := onBlobs_ok hok
    obtain ⟨hnext, hget, hsize⟩ := h.preuploaded ht
    exact ⟨hnext, hget, fun _ => hsize⟩

variable {scope : WorkspaceStorageScope}

theorem chargeIfNonzero (h : Underway W s0 s P δ ε) {n : ℕ} (hok : chargeIfNonzero scope n s = .ok (u, s')) :
    Underway W s0 s' P δ (ε + bytesOn scope.resource n) := by
  unfold Db.chargeIfNonzero at hok
  split_ifs at hok with hn
  · exact h.charge hok fun _ => .inl (Int.natCast_nonneg n)
  · cases hok
    have hzero : (n : ℤ) = 0 := not_not.mp hn
    rw [hzero, bytesOn_zero, add_zero]
    exact h

variable {nextCopyName : String → String} {etag : String} {f : File}

theorem createFile (h : Underway W s0 s ∅ δ ε) {mode : NewFileNameMode} {d : FileDraft}
    (hok : createFileFromBlob nextCopyName mode d etag s = .ok (f, s'))
    (hpaid : W.counts → δ d.blobId ≠ 0)
    (hsize : W.accounts → ∀ b, s.blobs.get d.blobId = some b → b.size = d.size) :
    Underway W s0 s' ∅ (δ - oneRef d.blobId) (ε - bytesOn d.scope.resource d.size) := by
  obtain ⟨created, s1, hins, hok1⟩ := bind_txn hok
  obtain ⟨r, s2, hinit, hok2⟩ := bind_txn hok1
  obtain ⟨rfl, rfl⟩ := pure_txn_ok.mp hok2
  obtain ⟨name, hins⟩ := insertFileByMode_ok hins
  have hmid := h.insertFile hins
  have hblob : created.blobId = d.blobId := by rw [hins.row]; rfl
  have hlen : created.size = d.size := by rw [hins.row]; rfl
  have hws : created.workspace = some d.scope.resource := by
    rw [hins.row, FileDraft.workspace_row]
  have hblobs : s1.blobs = s.blobs := by rw [hins.state]
  have hlast := hmid.enroll etag hins.mem (Set.mem_insert _ _) hws
    (by rw [hblob]; exact hpaid) (by rw [hblob, hlen, hblobs]; exact hsize)
  rw [hblob, hlen, ← createInitial_ok hinit, Set.insert_sdiff_of_mem _ (Set.mem_singleton _), Set.empty_sdiff] at hlast
  exact hlast

variable {blob : FileBlob} {mime : String} {now : ℕ}

theorem overwrite (h : Underway W s0 s P δ ε) {current : File} {expected : ExpectedHead} {w : WorkspaceResourceScope}
    (hok : overwriteContent current blob mime now expected etag s = .ok (f, s'))
    (hcur : current ∈ s.files.rows) (hw : current.workspace = some w)
    (hpaid : W.counts → δ blob.id ≠ 0)
    (hsize : W.accounts → ∀ b, s.blobs.get blob.id = some b → b.size = blob.size) :
    Underway W s0 s' P (δ - oneRef blob.id) (ε - bytesOn w blob.size) := by
  obtain ⟨locked, s1, hlock, hok1⟩ := bind_txn hok
  obtain ⟨rfl, _, _⟩ := lockHistory_ok hlock
  obtain ⟨updated, s2, hupd, hok2⟩ := bind_txn hok1
  obtain ⟨r, s3, happ, hok3⟩ := bind_txn hok2
  cases hok3
  cases hupd
  obtain ⟨hist, hh, hhf, rfl⟩ := appendExpecting_ok happ
  have hupF : ∀ f : File, { f with blobId := blob.id, size := blob.size, mimeType := mime
                                   updatedAt := now }.id = f.id := fun _ => rfl
  exact h.append hcur hh hhf { blobId := blob.id, logicalSize := blob.size, mimeType := mime, etag } hupF (fun _ => rfl)
    (fun _ => rfl) ⟨rfl, rfl, rfl⟩ hw hpaid hsize

theorem writeTarget (h : Underway W s0 s ∅ δ ε) {target : StoreTarget}
    (hok : writeTarget nextCopyName scope blob mime now etag target s = .ok (f, s'))
    (hpaid : W.counts → δ blob.id ≠ 0) (hget : s.blobs.get blob.id = some blob) :
    Underway W s0 s' ∅ (δ - oneRef blob.id) (ε - bytesOn scope.resource blob.size) := by
  have hsize : W.accounts → ∀ b, s.blobs.get blob.id = some b → b.size = blob.size := by
    intro _ b hb
    rw [some.inj (hb.symm.trans hget)]
  cases target with
  | newFile folderId name mode => exact h.createFile hok hpaid hsize
  | overwrite oldFile precondition expected =>
    obtain ⟨current, s1, hre, hover⟩ := bind_txn hok
    obtain ⟨rfl, hcur, hw⟩ := revalidateOverwriteTarget_ok hre
    exact h.overwrite hover hcur hw hpaid hsize

theorem writePreuploaded (h : Underway W s0 s ∅ δ ε) {folderId : Option ℕ} {name : String} {overwritten : Option File}
    (hok : writePreuploaded nextCopyName scope blob folderId name mime now etag overwritten s = .ok (f, s'))
    (hpaid : W.counts → δ blob.id ≠ 0) (hget : s.blobs.get blob.id = some blob) :
    Underway W s0 s' ∅ (δ - oneRef blob.id) (ε - bytesOn scope.resource blob.size) := by
  have hsize : W.accounts → ∀ b, s.blobs.get blob.id = some b → b.size = blob.size := by
    intro _ b hb
    rw [some.inj (hb.symm.trans hget)]
  cases overwritten with
  | none => exact h.createFile hok hpaid hsize
  | some oldFile =>
    obtain ⟨current, s1, hre, hover⟩ := bind_txn hok
    obtain ⟨rfl, hcur, hw⟩ := revalidatePreuploadedOverwriteTarget_ok hre
    exact h.overwrite hover hcur hw hpaid hsize

end Underway

/-! ### Stores -/

section Stores

variable {nextCopyName : String → String} {scope : WorkspaceStorageScope} {mime etag : String} {now : ℕ} {f : File}

theorem oneRef_self (k : ℕ) : (0 + oneRef k) k ≠ 0 := by
  simp [oneRef]

theorem storeFromTemp_keeps (h : Consistent W s) {blob : TempBlob} {target : StoreTarget}
    (hadm : W.accounts → W.Admits blob)
    (hok : storeFromTemp nextCopyName scope blob target mime now etag s = .ok (f, s')) :
    Underway W s s' ∅ 0 0 := by
  obtain ⟨_, s1, hquota, hok1⟩ := bind_txn hok
  obtain rfl := checkQuotaIfPositive_ok hquota
  obtain ⟨row, s2, hblob, hok2⟩ := bind_txn hok1
  obtain ⟨h1, hget, hsize⟩ := h.persistTemp hadm hblob
  obtain ⟨result, s3, hwrite, hok3⟩ := bind_txn hok2
  obtain ⟨_, s4, hcharge, hok4⟩ := bind_txn hok3
  cases hok4
  have h2 := h1.writeTarget hwrite (fun _ => oneRef_self row.id) hget
  refine (h2.chargeIfNonzero hcharge).settle (fun _ => ?_) (fun hA => ?_)
  · exact add_sub_cancel_right 0 _
  · rw [hsize hA]
    exact sub_add_cancel 0 _

variable {folderId : Option ℕ} {name : String}

theorem storePreuploaded_keeps (h : Consistent W s) {prepared : PreparedNonDedupBlobUpload} {overwritten : Option File}
    (hok : storePreuploadedNondedup nextCopyName scope prepared overwritten folderId name mime now
      etag s = .ok (f, s')) :
    Underway W s s' ∅ 0 0 := by
  obtain ⟨_, s1, hquota, hok1⟩ := bind_txn hok
  obtain rfl := checkQuotaIfPositive_ok hquota
  obtain ⟨blob, s2, hblob, hok2⟩ := bind_txn hok1
  obtain ⟨t', ht, rfl⟩ := onBlobs_ok hblob
  obtain ⟨h1, hget, hsize⟩ := h.preuploaded ht
  obtain ⟨result, s3, hwrite, hok3⟩ := bind_txn hok2
  obtain ⟨_, s4, hcharge, hok4⟩ := bind_txn hok3
  cases hok4
  have h2 := h1.writePreuploaded hwrite (fun _ => oneRef_self blob.id) hget
  refine (h2.chargeIfNonzero hcharge).settle (fun _ => ?_) (fun _ => ?_)
  · exact add_sub_cancel_right 0 _
  · rw [hsize]
    exact sub_add_cancel 0 _

theorem createEmpty_keeps (h : Consistent W s) {mode : NewFileNameMode} {policyId : ℕ}
    (hok : createEmpty nextCopyName scope folderId name mode policyId mime now etag s = .ok (f, s')) :
    Underway W s s' ∅ 0 0 := by
  obtain ⟨blob, s1, hblob, hcreate⟩ := bind_txn hok
  obtain ⟨t', ht, rfl⟩ := onBlobs_ok hblob
  obtain ⟨hp, hrow⟩ := adoptOrInsert_ok ht
  have hsize : W.accounts → blob.size = 0 := by
    intro hA
    rcases hrow with ⟨x, hx, hxsize, hkey⟩ | ⟨_, hsize, _⟩
    · unfold hasBlobKey at hkey
      rw [decide_eq_true_eq] at hkey
      have hgen := (h.accounts hA).genuine x (mem_of_get hx)
      unfold Watched.Genuine at hgen
      rw [hkey.2.2] at hgen
      rw [← hxsize]
      exact hgen
    · exact hsize
  have h1 := h.persisted hp (by
    intro hA hle
    rcases hrow with ⟨x, hx, _⟩ | ⟨_, _, _, hbacking, _⟩
    · have hlt := SerialTable.lt_next_of_get hx
      omega
    · unfold Watched.Genuine
      rw [hbacking]
      exact hsize hA)
  have h2 := h1.createFile hcreate (fun _ => oneRef_self blob.id) (by
    intro _ b hb
    rw [some.inj (hb.symm.trans hp.get)])
  refine h2.settle (fun _ => ?_) (fun hA => ?_)
  · exact add_sub_cancel_right 0 _
  · show 0 - bytesOn scope.resource blob.size = 0
    rw [hsize hA, Nat.cast_zero, bytesOn_zero, sub_zero]

theorem persistVerified (h : Underway W s0 s P δ ε) {upload : VerifiedUpload} {row : FileBlob}
    (hver : W.accounts → W.Verifies upload) (hok : persistVerifiedUpload upload s = .ok (row, s')) :
    Underway W s0 s' P (δ + oneRef row.id) ε ∧ s'.blobs.get row.id = some row := by
  unfold persistVerifiedUpload at hok
  cases upload with
  | findOrCreate fileHash storagePath size policyId =>
    obtain ⟨t', ht, rfl⟩ := onBlobs_ok hok
    exact h.findOrCreate hver ht
  | preuploaded prepared =>
    obtain ⟨t', ht, rfl⟩ := onBlobs_ok hok
    obtain ⟨hnext, hget, _⟩ := h.preuploaded ht
    exact ⟨hnext, hget⟩

theorem finalizeUploadSession_keeps (h : Consistent W s) {upload : VerifiedUpload} {completed : Except AsterError Unit}
    (hver : W.accounts → W.Verifies upload)
    (hok : finalizeUploadSession nextCopyName scope upload folderId name mime now etag completed s = .ok (f, s')) :
    Underway W s s' ∅ 0 0 := by
  obtain ⟨blob, s1, hblob, hok1⟩ := bind_txn hok
  obtain ⟨h1, hget⟩ := persistVerified h hver hblob
  obtain ⟨created, s2, hcreate, hok2⟩ := bind_txn hok1
  have h2 := h1.createFile hcreate (fun _ => oneRef_self blob.id) (by
    intro _ b hb
    rw [some.inj (hb.symm.trans hget)])
  obtain ⟨_, s3, hcharge, hok3⟩ := bind_txn hok2
  obtain ⟨_, _, hok4⟩ := bind_check_ok.mp hok3
  cases hok4
  refine (h2.charge hcharge fun _ => .inl (Int.natCast_nonneg _)).settle (fun _ => ?_) (fun _ => ?_)
  · exact add_sub_cancel_right 0 _
  · exact sub_add_cancel 0 _

end Stores

/-! ### Versions -/

section Versions

variable {fileId revisionId : ℕ}

theorem findByIdForFile_ok {o : Option FileRevision} (hok : findByIdForFile fileId revisionId s = .ok (o, s')) :
    s' = s ∧ ∃ h ∈ s.histories.rows, h.fileId = some fileId ∧
      o = (s.revisions.get revisionId).filter fun r => r.historyId = h.id ∧ r.retired = false := by
  obtain ⟨h, s1, hlock, hok1⟩ := bind_txn hok
  obtain ⟨rfl, hh, hhf⟩ := lockHistory_ok hlock
  have hok2 := bind_get_ok.mp hok1
  cases hok2
  exact ⟨rfl, h, hh, hhf, rfl⟩

theorem loadRevision_ok {r : FileRevision} (hok : loadRevisionForFile fileId revisionId s = .ok (r, s')) :
    s' = s ∧ r ∈ s.revisions.rows ∧ r.id = revisionId ∧ r.retired = false ∧
      ∃ h ∈ s.histories.rows, h.fileId = some fileId ∧ r.historyId = h.id := by
  obtain ⟨o, s1, hfind, hok1⟩ := bind_txn hok
  obtain ⟨rfl, h, hh, hhf, rfl⟩ := findByIdForFile_ok hfind
  obtain ⟨hr, rfl⟩ := orFail_ok.mp hok1
  obtain ⟨hget, hp⟩ := filter_eq_some_iff.mp hr
  rw [decide_eq_true_eq] at hp
  exact ⟨rfl, mem_of_get hget, key_of_get hget, hp.2, h, hh, hhf, hp.1⟩

variable {file : File}

theorem Underway.blob_of_file (h : Underway W s0 s ∅ δ ε) (hA : W.accounts)
    (hfile : file ∈ s.files.rows) {b : FileBlob} (hb : s.blobs.get file.blobId = some b) :
    b.size = file.size := by
  obtain ⟨hist, hh, hhf⟩ := h.ledger.kept file hfile (Set.notMem_empty _)
  obtain ⟨r, l, hl, hp⟩ := h.ledger.chain file hfile hist hh hhf
  obtain ⟨hr, _, hret⟩ := (hl.mem r).mp mem_cons_self
  rw [← hp.size]
  exact (h.accounts hA).sized r hr hret _ b hp.blob hb

variable {scope : WorkspaceStorageScope}

theorem restoreVersion_keeps (h : Consistent W s) {f : File}
    {now : ℕ} {etag : String} (hscope : file.workspace = some scope.resource)
    (hok : restoreVersionInner scope file revisionId now etag s = .ok (f, s')) :
    Underway W s s' ∅ 0 0 := by
  obtain ⟨current, s1, henf, hok1⟩ := bind_txn hok
  obtain ⟨rfl, hcur, hid, hws⟩ := enforceFileMutation_ok henf
  obtain ⟨_, hok2⟩ := bind_ensure_ok.mp hok1
  obtain ⟨locked, s3, hlock, hok3⟩ := bind_txn hok2
  obtain ⟨rfl, _, _⟩ := lockHistory_ok hlock
  obtain ⟨target, s4, hload, hok4⟩ := bind_txn hok3
  obtain ⟨rfl, htarget, _, hlive, _⟩ := loadRevision_ok hload
  obtain ⟨blobId, hblob, hok5⟩ := bind_orFail_ok.mp hok4
  obtain ⟨_, s6, hcharge, hok6⟩ := bind_txn hok5
  obtain ⟨_, s7, hinc, hok7⟩ := bind_txn hok6
  obtain ⟨r, s8, happ, hupd⟩ := bind_txn hok7
  have h1 := h.charge hcharge fun _ => .inl (Int.natCast_nonneg _)
  have h2 := h1.increment hinc
  -- neither statement touched the files or the ledger
  obtain ⟨hcur7, htarget7⟩ : current ∈ s7.files.rows ∧ target ∈ s7.revisions.rows := by
    obtain ⟨t', _, rfl⟩ := onBlobs_ok hinc
    unfold updateStorageUsedOn updateStorageUsedFor at hcharge
    split at hcharge
    · simp at hcharge
    · cases hcharge
      exact ⟨hcur, htarget⟩
  obtain ⟨hist, hh, hhf, rfl⟩ := append_ok happ
  cases hupd
  have hupF : ∀ f : File, { f with blobId, size := target.logicalSize
                                   mimeType := target.mimeType.getD current.mimeType
                                   updatedAt := now }.id = f.id := fun _ => rfl
  have h3 := h2.append hcur7 hh (hid ▸ hhf)
    { blobId, logicalSize := target.logicalSize
      mimeType := target.mimeType.getD current.mimeType, etag } hupF (fun _ => rfl) (fun _ => rfl)
    ⟨rfl, rfl, rfl⟩ (hws.trans hscope) (fun _ => oneRef_self blobId) (by
      intro hA b hb
      exact (h2.accounts hA).sized target htarget7 hlive _ b hblob hb)
  refine h3.settle (fun _ => ?_) (fun _ => ?_)
  all_goals exact add_sub_cancel_right 0 _

variable {u : Unit}

/-- A revision that is neither current nor retired gives back its reference and its bytes. -/
theorem retireRevision_keeps (h : Consistent W s) {w : WorkspaceResourceScope} {v : FileRevision}
    {purged : AsterError} (hv : v ∈ s.revisions.rows) (hvret : v.retired = false)
    {hist : FileRevisionHistory} (hh : hist ∈ s.histories.rows) (hvh : v.historyId = hist.id)
    (hcur : hist.currentRevisionId ≠ some v.id)
    (hw : W.accounts → workspaceOf s.files s.histories v = some w)
    (hok : retireRevision w v purged s = .ok (u, s')) : Underway W s s' ∅ 0 0 := by
  obtain ⟨k, hk, hok1⟩ := bind_orFail_ok.mp hok
  obtain ⟨_, s2, htomb, hok2⟩ := bind_txn hok1
  obtain ⟨_, s3, hdec, hrec⟩ := bind_txn hok2
  have h1 := h.tombstone htomb hv hvret hh hvh hcur hk hw
  obtain ⟨t', ht, rfl⟩ := onBlobs_ok hdec
  cases ht
  have h2 := h1.decrement (p := fun b => b.id = k) (g := flooredDecrement 1) (d := oneRef k) (by
      intro _ j
      unfold oneRef
      split_ifs <;> simp_all) (by
      intro j
      rw [get_updateRefCounts]
      rcases hj : s2.blobs.get j with _ | b
      · rfl
      · obtain rfl : b.id = j := key_of_get hj
        unfold oneRef
        by_cases hbk : b.id = k
        · simp [hbk]
        · simp [hbk])
  unfold reclaim at hrec
  split_ifs at hrec with hsize
  · refine (h2.charge hrec fun _ => .inr ?_).settle (fun _ => ?_) (fun _ => ?_)
    · simp [bytesOn]
    · exact add_sub_cancel_right 0 _
    · funext x
      simp only [Pi.add_apply, Pi.zero_apply, bytesOn]
      split_ifs <;> omega
  · cases hrec
    have hzero : v.logicalSize = 0 := not_not.mp hsize
    refine h2.settle (fun _ => ?_) (fun _ => ?_)
    · exact add_sub_cancel_right 0 _
    · rw [hzero, Nat.cast_zero, bytesOn_zero, add_zero]

theorem workspaceOf_eq (h : Consistent W s) {w : WorkspaceResourceScope}
    (hsnap : ∀ g ∈ s.files.rows, g.id = file.id → g.workspace = some w) {v : FileRevision}
    (hv : v ∈ s.revisions.rows) (hvret : v.retired = false) {hist : FileRevisionHistory}
    (hh : hist ∈ s.histories.rows) (hhf : hist.fileId = some file.id) (hvh : v.historyId = hist.id) :
    workspaceOf s.files s.histories v = some w := by
  obtain ⟨x, g, hx, hxg, hg, hws⟩ := h.ledger.file_of_live hv hvret
  have hxh : x = hist := by
    refine eq_of_key (mem_of_get hx) hh ?_
    rw [key_of_get hx, hvh]
  rw [hxh, hhf] at hxg
  rw [hws]
  exact hsnap g (mem_of_get hg) (some.inj hxg).symm

theorem deleteVersion_keeps (h : Consistent W s)
    (hsnap : W.accounts → ∀ g ∈ s.files.rows, g.id = file.id → g.workspace = some scope.resource)
    (hok : deleteVersionInner scope file revisionId s = .ok (u, s')) : Underway W s s' ∅ 0 0 := by
  obtain ⟨history, s1, hlock, hok1⟩ := bind_txn hok
  obtain ⟨rfl, hh, hhf⟩ := lockHistory_ok hlock
  obtain ⟨hne, hok2⟩ := bind_ensure_ok.mp hok1
  obtain ⟨v, s3, hload, hretire⟩ := bind_txn hok2
  obtain ⟨rfl, hv, hid, hvret, x, hx, hxf, hvx⟩ := loadRevision_ok hload
  obtain rfl : x = history := h.ledger.one x hx history hh file.id hxf hhf
  rw [← hid] at hne
  exact retireRevision_keeps h hv hvret hx hvx hne (fun hA => workspaceOf_eq h (hsnap hA) hv hvret hx hxf hvx) hretire

/-- The revision that a round of `cleanup_excess` picks is live and not the current one. -/
theorem findOldestNonCurrent_ok {o : Option FileRevision} (hok : findOldestNonCurrent fileId s = .ok (o, s')) :
    s' = s ∧ ∀ v, o = some v → v ∈ s.revisions.rows ∧ v.retired = false ∧
      ∃ h ∈ s.histories.rows, h.fileId = some fileId ∧ v.historyId = h.id ∧ h.currentRevisionId ≠ some v.id := by
  obtain ⟨h, s1, hlock, hok1⟩ := bind_txn hok
  obtain ⟨rfl, hh, hhf⟩ := lockHistory_ok hlock
  have hok2 := bind_get_ok.mp hok1
  cases hok2
  refine ⟨rfl, ?_⟩
  intro v hv
  have hmem := mem_of_head? hv
  rw [mem_insertionSort, mem_filter, decide_eq_true_eq] at hmem
  obtain ⟨hlive, hne⟩ := hmem
  unfold liveRevisions at hlive
  rw [mem_filter, decide_eq_true_eq] at hlive
  exact ⟨hlive.1, hlive.2.2, h, hh, hhf, hlive.2.1, fun heq => hne heq.symm⟩

theorem cleanupExcess_keeps (h : Consistent W s) {maxHistory : ℕ}
    (hsnap : W.accounts → ∀ g ∈ s.files.rows, g.id = file.id → g.workspace = file.workspace)
    (hok : cleanupExcessRound file maxHistory s = .ok (u, s')) : Underway W s s' ∅ 0 0 := by
  obtain ⟨w, hscope, hok1⟩ := bind_check_ok.mp hok
  have hw : file.workspace = some w := by
    unfold resourceScopeFromFile at hscope
    split at hscope
    · rename_i x hx
      rw [hx, Except.ok.inj hscope]
    · simp at hscope
  obtain ⟨count, s2, hcount, hok2⟩ := bind_txn hok1
  have hs2 : s2 = s := by
    obtain ⟨x, t, hlock, hcount1⟩ := bind_txn hcount
    obtain ⟨rfl, _, _⟩ := lockHistory_ok hlock
    have hcount2 := bind_get_ok.mp hcount1
    exact (pure_txn_ok.mp hcount2).2.symm
  subst hs2
  obtain ⟨oldest, s3, hfind, hretire⟩ := bind_txn hok2
  obtain ⟨rfl, hold⟩ := findOldestNonCurrent_ok hfind
  generalize hpick : (if count ≤ maxHistory + 1 then none else oldest) = pick at hretire
  cases pick with
  | none =>
    cases hretire
    exact h
  | some v =>
    split_ifs at hpick
    obtain ⟨hv, hvret, x, hx, hxf, hvx, hne⟩ := hold v hpick
    exact retireRevision_keeps h hv hvret hx hvx hne (fun hA => workspaceOf_eq h
      (fun g hg hid => (hsnap hA g hg hid).trans hw) hv hvret hx hxf hvx) hretire

theorem recordPropertyChange_keeps (h : Consistent W s) {etag : String}
    (hok : recordPropertyChange scope fileId etag s = .ok (u, s')) : Underway W s s' ∅ 0 0 := by
  have hok1 := bind_get_ok.mp hok
  obtain ⟨file, hfile, hok2⟩ := bind_orFail_ok.mp hok1
  obtain ⟨_, hscope, hok3⟩ := bind_check_ok.mp hok2
  obtain ⟨history, s4, hlock, hok4⟩ := bind_txn hok3
  obtain ⟨rfl, _, _⟩ := lockHistory_ok hlock
  split_ifs at hok4
  · unfold appendPropertyRevision at hok4
    obtain ⟨_, s5, hquota, hok5⟩ := bind_txn hok4
    obtain rfl := checkQuotaIfPositive_ok hquota
    obtain ⟨_, s6, hinc, hok6⟩ := bind_txn hok5
    obtain ⟨r, s7, happ, hcharge⟩ := bind_txn hok6
    have h1 := h.increment hinc
    have hmem : file ∈ s6.files.rows := by
      obtain ⟨t', _, rfl⟩ := onBlobs_ok hinc
      exact mem_of_get hfile
    obtain ⟨hist, hh, hhf, rfl⟩ := append_ok happ
    have hupF : ∀ f : File, (fun x => x) f = f := fun _ => rfl
    have h2 := h1.append hmem hh hhf
      { blobId := file.blobId, logicalSize := file.size, mimeType := file.mimeType, etag }
      (fun f => congrArg File.id (hupF f)) (fun _ => rfl) (fun _ => rfl) ⟨rfl, rfl, rfl⟩
      (workspace_of_ensure hscope) (fun _ => oneRef_self file.blobId)
      fun hA b hb => h1.blob_of_file hA hmem hb
    rw [SerialTable.updateRows_self _ hupF] at h2
    refine (h2.chargeIfNonzero hcharge).settle (fun _ => ?_) (fun _ => ?_)
    · exact add_sub_cancel_right 0 _
    · exact sub_add_cancel 0 _
  · cases hok4
    exact h

end Versions

end AsterDrive.Db
