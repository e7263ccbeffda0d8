import AsterDrive.Workspace.Preservation

/-!
# Copies — batches of new files over old blobs

A copy counts its blobs in one batch, inserts all file rows, reads them back and gives each its first
revision. `collect_ok` says that the batch counts every source, `createMany_ok` which rows the
insertion leaves, and the two reload lemmas that the rows read back are exactly those.
-/

namespace AsterDrive.Db

open List

variable {W : Watched} {s0 s s' : Db} {P : Set ℕ} {δ : ℕ → ℤ} {ε : WorkspaceResourceScope → ℤ}

/-! ### Counting the sources -/

/-- How often each blob occurs. -/
def tally (ids : List ℕ) : ℕ → ℤ := fun k => (ids.count k : ℤ)

theorem tally_cons (i : ℕ) (ids : List ℕ) : tally (i :: ids) = tally ids + oneRef i := by
  funext k
  unfold tally oneRef
  by_cases hk : i = k
  · simp [hk]
  · simp [hk, Ne.symm hk]

theorem totalDelta_cons (e : ℕ × ℤ) (m : List (ℕ × ℤ)) (k : ℕ) :
    totalDelta (e :: m) k = (if e.1 = k then e.2 else 0) + totalDelta m k := rfl

theorem totalDelta_of_merged {m : List (ℕ × ℤ)} (hm : Merged m) : totalDelta m = deltaOf m := by
  funext k
  induction m with
  | nil => rfl
  | cons e m ih =>
    obtain ⟨hhead, htail⟩ := pairwise_cons.mp hm
    rw [totalDelta_cons, deltaOf_cons, ih htail]
    by_cases hk : e.1 = k
    · have hnot : k ∉ m.map Prod.fst := by
        intro hmem
        obtain ⟨x, hx, hxk⟩ := mem_map.mp hmem
        have hlt := hhead x hx
        omega
      rw [if_pos hk, if_pos hk.symm, deltaOf_of_notMem hnot, add_zero]
    · rw [if_neg hk, if_neg (Ne.symm hk), zero_add]

/-- **The batch counts every source.** -/
theorem collect_ok {ids : List ℕ} {context : String} {m : List (ℕ × ℤ)}
    (hok : collectBlobRefCountIncrements ids context = .ok m) : totalDelta m = tally ids := by
  have main : ∀ (l : List ℕ) (a : List (ℕ × ℤ)), Merged a → l.foldlM (countBlob context) a = .ok m →
      Merged m ∧ deltaOf m = deltaOf a + tally l := by
    intro l
    induction l with
    | nil =>
      intro a ha hl
      obtain rfl : a = m := by simpa [pure, Except.pure] using hl
      refine ⟨ha, ?_⟩
      funext k
      simp [tally]
    | cons i l ih =>
      intro a ha hl
      obtain ⟨a', hi, hl⟩ := bind_ok hl
      unfold countBlob at hi
      split_ifs at hi
      cases hi
      obtain ⟨hm, hsum⟩ := ih _ (merged_addDelta ha) hl
      refine ⟨hm, ?_⟩
      rw [hsum, tally_cons]
      funext k
      simp only [Pi.add_apply, deltaOf_addDelta ha, oneRef]
      omega
  obtain ⟨hm, hsum⟩ := main ids [] List.Pairwise.nil hok
  rw [totalDelta_of_merged hm, hsum]
  funext k
  simp [deltaOf]

/-! ### The new rows -/

/-- The files are the drafts' rows, in order, under ids of their own. -/
structure Created (drafts : List FileDraft) (s : Db) (files : List File) (s' : Db) : Prop where
  rows : List.Forall₂ (fun d f => f = d.row f.id) drafts files
  table : s'.files.rows = s.files.rows ++ files
  rest : s' = { s with files := s'.files }

variable {drafts : List FileDraft} {files : List File}

theorem Created.nodup (h : Created drafts s files s') : (files.map File.id).Nodup := by
  have hnd := s'.files.unique
  rw [h.table, map_append] at hnd
  exact hnd.of_append_right

variable {f : File}

theorem Created.mem (h : Created drafts s files s') (hf : f ∈ files) : f ∈ s'.files.rows := by
  rw [h.table]
  exact mem_append_right _ hf

theorem Created.map_eq {β : Type} (h : Created drafts s files s') {g : FileDraft → β} {g' : File → β}
    (hg : ∀ d id, g' (d.row id) = g d) : files.map g' = drafts.map g := by
  have hrows := h.rows
  clear h
  induction hrows with
  | nil => rfl
  | @cons d f ds fs hf _ ih =>
    rw [map_cons, map_cons, ih, hf, hg]

theorem Created.draft_of (h : Created drafts s files s') (hf : f ∈ files) : ∃ d ∈ drafts, f = d.row f.id := by
  have hrows := h.rows
  clear h
  induction hrows with
  | nil => simp at hf
  | @cons d f' ds fs hrow _ ih =>
    rcases mem_cons.mp hf with rfl | hf
    · exact ⟨d, mem_cons_self, hrow⟩
    · obtain ⟨d', hd', hfd⟩ := ih hf
      exact ⟨d', mem_cons_of_mem _ hd', hfd⟩

theorem createMany_ok (h : Underway W s0 s P δ ε) (hok : createMany drafts s = .ok (files, s')) :
    Underway W s0 s' (P ∪ {i | i ∈ files.map File.id}) δ ε ∧ Created drafts s files s' := by
  unfold createMany at hok
  induction drafts generalizing s P files with
  | nil =>
    cases hok
    refine ⟨?_, .nil, by simp, rfl⟩
    simpa using h
  | cons d drafts ih =>
    rw [mapM_cons] at hok
    obtain ⟨f, s1, hone, hok1⟩ := bind_txn hok
    obtain ⟨fs, s2, hrest, hok2⟩ := bind_txn hok1
    cases hok2
    have hins := insertFile_ok hone
    obtain ⟨hnext, hcreated⟩ := ih (h.insertFile hins) hrest
    have hset : insert f.id P ∪ {i | i ∈ fs.map File.id} = P ∪ {i | i ∈ (f :: fs).map File.id} := by
      ext i
      simp only [Set.mem_union, Set.mem_insert_iff, Set.mem_ofPred_eq, map_cons, mem_cons]
      tauto
    rw [hset] at hnext
    refine ⟨hnext, ?_, ?_, ?_⟩
    · refine .cons ?_ hcreated.rows
      rw [hins.row]
      rfl
    · rw [hcreated.table, hins.state, hins.row]
      exact append_assoc ..
    · have hrest := hcreated.rest
      rw [hins.state] at hrest
      exact hrest

/-- **All the first revisions** of a batch, for one workspace. -/
theorem Underway.enrollAll (h : Underway W s0 s P δ ε) (etag : File → String)
    {w : WorkspaceResourceScope} (hmem : ∀ f ∈ files, f ∈ s.files.rows)
    (hpend : ∀ f ∈ files, f.id ∈ P) (hnd : (files.map File.id).Nodup)
    (hw : ∀ f ∈ files, f.workspace = some w)
    (hpaid : W.counts → ∀ k, tally (files.map File.blobId) k ≤ δ k)
    (hsize : W.accounts → ∀ f ∈ files, ∀ b, s.blobs.get f.blobId = some b → b.size = f.size) :
    Underway W s0 (enrollAll s etag files) (P \ {i | i ∈ files.map File.id})
      (δ - tally (files.map File.blobId)) (ε - bytesOn w (files.map File.size).sum) := by
  induction files generalizing s P δ ε with
  | nil =>
    refine Underway.settle (δ := δ) (ε := ε) ?_ (fun _ => ?_) (fun _ => ?_)
    · simpa [Db.enrollAll] using h
    · funext k
      simp [tally]
    · simp [bytesOn_zero]
  | cons f files ih =>
    obtain ⟨hfnot, hnd⟩ := nodup_cons.mp hnd
    have hsplit : ∀ k, tally ((f :: files).map File.blobId) k =
        tally (files.map File.blobId) k + oneRef f.blobId k := by
      intro k
      rw [map_cons, tally_cons, Pi.add_apply]
    have h1 := h.enroll (etag f) (hmem f mem_cons_self) (hpend f mem_cons_self) (hw f mem_cons_self) (by
        intro hB
        have hle := hpaid hB f.blobId
        rw [hsplit] at hle
        have hnn : 0 ≤ tally (files.map File.blobId) f.blobId := Int.natCast_nonneg _
        have hone : oneRef f.blobId f.blobId = 1 := if_pos rfl
        omega) (fun hA => hsize hA f mem_cons_self)
    have h2 := ih h1 (fun x hx => hmem x (mem_cons_of_mem _ hx)) (by
        intro x hx
        refine ⟨hpend x (mem_cons_of_mem _ hx), ?_⟩
        intro heq
        exact hfnot (heq ▸ mem_map_of_mem hx)) hnd (fun x hx => hw x (mem_cons_of_mem _ hx)) (by
        intro hB k
        have hle := hpaid hB k
        rw [hsplit] at hle
        rw [Pi.sub_apply]
        omega) (fun hA x hx => hsize hA x (mem_cons_of_mem _ hx))
    have hset : (P \ {f.id}) \ {i | i ∈ files.map File.id} = P \ {i | i ∈ (f :: files).map File.id} := by
      ext i
      simp only [Set.mem_sdiff, Set.mem_singleton_iff, Set.mem_ofPred_eq, map_cons, mem_cons]
      tauto
    rw [hset] at h2
    refine h2.settle (fun _ => ?_) (fun _ => ?_)
    · funext k
      simp only [Pi.sub_apply, hsplit]
      omega
    · funext x
      simp only [Pi.sub_apply, bytesOn, map_cons, sum_cons]
      split_ifs <;> omega

/-! ### Reading the copies back -/

theorem filter_eq_of_length {α : Type} {old new : List α} {p : α → Bool}
    (hnew : ∀ x ∈ new, p x = true) (hlen : ((old ++ new).filter p).length = new.length) :
    (old ++ new).filter p = new := by
  have hall : new.filter p = new := filter_eq_self.mpr hnew
  rw [filter_append, hall, length_append] at hlen
  have hnil : old.filter p = [] := eq_nil_of_length_eq_zero (by omega)
  rw [filter_append, hall, hnil, nil_append]

theorem isActiveIn_row (d : FileDraft) (id : ℕ) : isActiveIn d.scope (d.row id) = true :=
  decide_eq_true ⟨d.workspace_row id, rfl⟩

variable {scope : WorkspaceStorageScope}

theorem reload_by_names (normalizeName : String → String) {folderId : Option ℕ}
    (hc : Created drafts s files s') (hscope : ∀ d ∈ drafts, d.scope = scope ∧ d.folderId = folderId)
    (hlen : (findByNamesInFolder normalizeName s' scope folderId (drafts.map FileDraft.name)).length = files.length) :
    findByNamesInFolder normalizeName s' scope folderId (drafts.map FileDraft.name) = files := by
  unfold findByNamesInFolder at hlen ⊢
  rw [hc.table] at hlen ⊢
  refine filter_eq_of_length ?_ hlen
  intro f hf
  obtain ⟨d, hd, hfd⟩ := hc.draft_of hf
  obtain ⟨hs, hfolder⟩ := hscope d hd
  rw [hfd]
  refine decide_eq_true ⟨hs ▸ isActiveIn_row d f.id, hfolder, d.name, ?_, .inl rfl⟩
  exact mem_map_of_mem hd

/-- Names are unique among live files, so the copy found by folder and name is the one inserted. -/
theorem findCopy_ok {files : Files} {spec : CopySpec} {now : ℕ} {reloaded : List File} {x : File} (hf : f ∈ files.rows)
    (hfd : f = (spec.draft scope now).row f.id)
    (hnames : ∀ f ∈ files.rows, ∀ g ∈ files.rows, f.liveName.isSome = true → f.liveName = g.liveName → f = g)
    (hreload : ∀ g ∈ reloaded, g ∈ files.rows ∧ isActiveIn scope g = true)
    (hok : findCopy reloaded spec s = .ok (x, s')) : s' = s ∧ x = f := by
  obtain ⟨hfind, rfl⟩ := orFail_ok.mp hok
  have hx := find?_some hfind
  rw [decide_eq_true_eq] at hx
  obtain ⟨hxrow, hxact⟩ := hreload x (mem_of_find?_eq_some hfind)
  unfold isActiveIn at hxact
  rw [decide_eq_true_eq] at hxact
  have hlive : f.liveName = some (scope.resource, spec.destFolderId.getD 0, spec.destName) := by
    rw [hfd]
    unfold File.liveName
    rw [FileDraft.workspace_row]
    rfl
  have hxlive : x.liveName = some (scope.resource, spec.destFolderId.getD 0, spec.destName) := by
    unfold File.liveName
    rw [if_pos hxact.2, hxact.1, hx.1, hx.2]
    rfl
  refine ⟨rfl, (hnames f hf x hxrow ?_ (hlive.trans hxlive.symm)).symm⟩
  rw [hlive]
  rfl

theorem mapM_findCopy_ok {files : Files} {specs : List CopySpec}
    {now : ℕ} {reloaded fs xs : List File} (hfs : ∀ f ∈ fs, f ∈ files.rows)
    (hrows : List.Forall₂ (fun d f => f = d.row f.id) (specs.map fun c => c.draft scope now) fs)
    (hnames : ∀ f ∈ files.rows, ∀ g ∈ files.rows, f.liveName.isSome = true → f.liveName = g.liveName → f = g)
    (hreload : ∀ g ∈ reloaded, g ∈ files.rows ∧ isActiveIn scope g = true)
    (hok : specs.mapM (findCopy reloaded) s = .ok (xs, s')) : s' = s ∧ xs = fs := by
  induction specs generalizing fs xs with
  | nil =>
    cases hrows
    cases hok
    exact ⟨rfl, rfl⟩
  | cons spec specs ih =>
    cases hrows with
    | cons hfd hrest =>
      rename_i f fs
      rw [mapM_cons] at hok
      obtain ⟨x, s1, hone, hok1⟩ := bind_txn hok
      obtain ⟨rfl, rfl⟩ := findCopy_ok (hfs f mem_cons_self) hfd hnames hreload hone
      obtain ⟨ys, s2, hmany, hok2⟩ := bind_txn hok1
      cases hok2
      obtain ⟨rfl, rfl⟩ := ih (fun f hf => hfs f (mem_cons_of_mem _ hf)) hrest hmany
      exact ⟨rfl, rfl⟩

/-! ### The three transactions -/

section Transactions

variable {scope : WorkspaceStorageScope} {specs : List CopySpec} {now : ℕ} {etag : File → String} {files : List File}

/-- What is known of a loaded file's blob: its row has the file's size, if it still exists. -/
def BlobSeen (s : Db) (f : File) : Prop :=
  f.blobId < s.blobs.next ∧ ∀ b, s.blobs.get f.blobId = some b → b.size = f.size

theorem BlobSeen.later {f : File} (h : BlobSeen s f) (hk : BlobsKept s.blobs s'.blobs) : BlobSeen s' f := by
  refine ⟨lt_of_lt_of_le h.1 hk.next, ?_⟩
  intro b' hb'
  obtain ⟨b, hb, hbb⟩ := hk.old _ b' h.1 hb'
  rw [hbb]
  exact h.2 b hb

theorem totalCopySize_ok {context : String} {n : ℕ} (hok : totalCopySize specs context = .ok n) :
    n = (specs.map fun c => c.src.size).sum := by
  unfold totalCopySize at hok
  dsimp only at hok
  split_ifs at hok
  exact (Except.ok.inj hok).symm

/-- The sources of a batch are counted and its rows inserted: what is outstanding then. -/
theorem Underway.copied {drafts : List FileDraft} {s1 s2 : Db} (h : Underway W s0 s ∅ 0 ε)
    {m : List (ℕ × ℤ)} {context : String} {u : Unit}
    (hcollect : collectBlobRefCountIncrements (specs.map fun c => c.src.blobId) context = .ok m)
    (hinc : incrementManyOn m s = .ok (u, s1)) (hcreate : createMany drafts s1 = .ok (files, s2)) :
    Underway W s0 s2 {i | i ∈ files.map File.id} (tally (specs.map fun c => c.src.blobId)) ε ∧
      Created drafts s1 files s2 ∧ BlobsKept s.blobs s2.blobs := by
  have h1 := h.incrementMany hinc
  rw [collect_ok hcollect, zero_add] at h1
  obtain ⟨h2, hc⟩ := createMany_ok h1 hcreate
  rw [Set.empty_union] at h2
  refine ⟨h2, hc, ?_⟩
  obtain ⟨t', ht, rfl⟩ := onBlobs_ok hinc
  obtain ⟨x, hx, hxt⟩ := map_ok_iff.mp ht
  cases hxt
  rw [hc.rest]
  exact (incrementBy_ok hx).kept

theorem Underway.enrollCopies {s1 : Db} {place : CopySpec → FileDraft}
    (h : Underway W s0 s {i | i ∈ files.map File.id} (tally (specs.map fun c => c.src.blobId)) ε)
    (etag : File → String) (hc : Created (specs.map place) s1 files s)
    (hplace : ∀ c, (place c).scope = scope ∧ (place c).blobId = c.src.blobId ∧ (place c).size = c.src.size)
    (hseen : W.accounts → ∀ c ∈ specs, BlobSeen s c.src) :
    Underway W s0 (Db.enrollAll s etag files) ∅ 0
      (ε - bytesOn scope.resource ((specs.map fun c => c.src.size).sum : ℕ)) := by
  have hids : files.map File.blobId = specs.map fun c => c.src.blobId := by
    rw [hc.map_eq (g := FileDraft.blobId) fun _ _ => rfl, map_map]
    exact map_congr_left fun c _ => (hplace c).2.1
  have hlens : files.map File.size = specs.map fun c => c.src.size := by
    rw [hc.map_eq (g := FileDraft.size) fun _ _ => rfl, map_map]
    exact map_congr_left fun c _ => (hplace c).2.2
  have h1 := h.enrollAll etag (w := scope.resource) (fun f hf => hc.mem hf) (fun f hf => mem_map_of_mem hf) hc.nodup (by
      intro f hf
      obtain ⟨d, hd, hfd⟩ := hc.draft_of hf
      obtain ⟨c, _, rfl⟩ := mem_map.mp hd
      rw [hfd, FileDraft.workspace_row, (hplace c).1]) (by
      intro _ k
      rw [hids]) (by
      intro hA f hf b hb
      obtain ⟨d, hd, hfd⟩ := hc.draft_of hf
      obtain ⟨c, hcs, rfl⟩ := mem_map.mp hd
      have hfblob : f.blobId = c.src.blobId := by rw [hfd]; exact (hplace c).2.1
      have hfsize : f.size = c.src.size := by rw [hfd]; exact (hplace c).2.2
      rw [hfblob] at hb
      rw [hfsize]
      exact (hseen hA c hcs).2 b hb)
  rw [hids, hlens, Set.sdiff_self] at h1
  exact h1.settle (fun _ => sub_self _) (fun _ => rfl)

theorem batchDuplicate_keeps (h : Consistent W s) {normalizeName : String → String}
    {destFolderId : Option ℕ} (hseen : W.accounts → ∀ c ∈ specs, BlobSeen s c.src)
    (hok : batchDuplicateFileRecords normalizeName scope specs destFolderId now etag s = .ok (files, s')) :
    Underway W s s' ∅ 0 0 := by
  unfold batchDuplicateFileRecords at hok
  split_ifs at hok
  · cases hok
    exact h
  obtain ⟨total, htotal, hok1⟩ := bind_check_ok.mp hok
  obtain rfl := totalCopySize_ok htotal
  obtain ⟨_, s2, hcharge, hok2⟩ := bind_txn hok1
  obtain ⟨m, hcollect, hok3⟩ := bind_check_ok.mp hok2
  obtain ⟨_, s4, hinc, hok4⟩ := bind_txn hok3
  obtain ⟨fs, s5, hcreate, hok5⟩ := bind_txn hok4
  have hok6 := bind_get_ok.mp hok5
  obtain ⟨hlen, hok7⟩ := bind_ensure_ok.mp hok6
  obtain ⟨rs, s8, hinit, hok8⟩ := bind_txn hok7
  cases hok8
  have h1 := h.charge hcharge fun _ => .inl (Int.natCast_nonneg _)
  obtain ⟨h2, hc, hkept⟩ := h1.copied hcollect hinc hcreate
  -- the rows read back are the rows inserted
  have hnames : specs.map CopySpec.destName = (specs.map fun spec =>
      { spec.draft scope now with folderId := destFolderId }).map FileDraft.name := by
    rw [map_map]
    rfl
  rw [hnames] at hlen hinit
  have hreload := reload_by_names normalizeName hc (by
    intro d hd
    obtain ⟨c, _, rfl⟩ := mem_map.mp hd
    exact ⟨rfl, rfl⟩) (hlen.trans (by rw [← hc.rows.length_eq, length_map]))
  rw [hreload] at hinit
  rw [mapM_createInitial_ok hinit]
  have h3 := h2.enrollCopies etag hc (fun _ => ⟨rfl, rfl, rfl⟩) fun hA c hcs => (hseen hA c hcs).later h2.since.blobs
  exact h3.settle (fun _ => rfl) (fun _ => add_sub_cancel_right 0 _)

theorem batchDuplicateToMixedFolders_keeps (h : Consistent W s) (hseen : W.accounts → ∀ c ∈ specs, BlobSeen s c.src)
    (hok : batchDuplicateToMixedFolders scope specs now etag s = .ok (files, s')) :
    Underway W s s' ∅ 0 0 := by
  unfold batchDuplicateToMixedFolders at hok
  split_ifs at hok
  · cases hok
    exact h
  obtain ⟨total, htotal, hok1⟩ := bind_check_ok.mp hok
  obtain rfl := totalCopySize_ok htotal
  obtain ⟨_, s2, hquota, hok2⟩ := bind_txn hok1
  obtain rfl := checkQuotaOn_ok hquota
  obtain ⟨m, hcollect, hok3⟩ := bind_check_ok.mp hok2
  obtain ⟨_, s4, hinc, hok4⟩ := bind_txn hok3
  obtain ⟨fs, s5, hcreate, hok5⟩ := bind_txn hok4
  have hok6 := bind_get_ok.mp hok5
  obtain ⟨h1, hc, _⟩ := h.copied hcollect hinc hcreate
  obtain ⟨created, s7, hfind, hok7⟩ := bind_txn hok6
  obtain ⟨rfl, rfl⟩ := mapM_findCopy_ok (fun f hf => hc.mem hf) hc.rows h1.ledger.names (by
    intro g hg
    obtain ⟨hg, hp⟩ := mem_filter.mp hg
    rw [decide_eq_true_eq] at hp
    exact ⟨hg, hp.1⟩) hfind
  obtain ⟨_, hok8⟩ := bind_ensure_ok.mp hok7
  obtain ⟨rs, s9, hinit, hok9⟩ := bind_txn hok8
  obtain ⟨henroll, _⟩ := createInitialMany_ok (fun r hr => h1.ledger.history_lt hr) hinit
  obtain ⟨_, s10, hcharge, hok10⟩ := bind_txn hok9
  cases hok10
  have h2 := h1.enrollCopies etag hc (fun _ => ⟨rfl, rfl, rfl⟩) fun hA c hcs => (hseen hA c hcs).later h1.since.blobs
  rw [← henroll] at h2
  refine (h2.charge hcharge fun _ => .inl (Int.natCast_nonneg _)).settle (fun _ => rfl) fun _ => ?_
  exact sub_add_cancel 0 _

theorem findBlobById_ok {t : Blobs} {k : ℕ} {b : FileBlob} (hok : findBlobById t k = .ok b) : t.get k = some b := by
  unfold findBlobById at hok
  split at hok
  · rename_i x hx
    rw [hx, Except.ok.inj hok]
  · simp at hok

theorem duplicate_keeps (h : Consistent W s) {spec : CopySpec} {f : File} (hseen : W.accounts → BlobSeen s spec.src)
    (hok : duplicateFileRecord scope spec now etag s = .ok (f, s')) : Underway W s s' ∅ 0 0 := by
  have hok1 := bind_get_ok.mp hok
  obtain ⟨blob, hfind, hok2⟩ := bind_check_ok.mp hok1
  have hblob := findBlobById_ok hfind
  have hid : blob.id = spec.src.blobId := Table.key_of_get hblob
  obtain ⟨_, s3, hquota, hok3⟩ := bind_txn hok2
  obtain rfl := checkQuotaOn_ok hquota
  obtain ⟨_, s4, hinc, hok4⟩ := bind_txn hok3
  have h1 := h.increment hinc
  obtain ⟨new, s5, hone, hok5⟩ := bind_txn hok4
  have hins := insertFile_ok hone
  have h2 := h1.insertFile hins
  obtain ⟨_, s6, hcharge, hok6⟩ := bind_txn hok5
  obtain ⟨r, s7, hinit, hok7⟩ := bind_txn hok6
  obtain ⟨rfl, rfl⟩ := pure_txn_ok.mp hok7
  have h3 := h2.charge hcharge fun _ => .inl (Int.natCast_nonneg _)
  have hmem : new ∈ s6.files.rows := by
    unfold updateStorageUsedOn updateStorageUsedFor at hcharge
    split at hcharge
    · simp at hcharge
    · obtain ⟨_, rfl⟩ := ok_pair_inj hcharge
      exact hins.mem
  have hnew : new.blobId = blob.id ∧ new.size = spec.src.size := by
    rw [hins.row, hid]
    exact ⟨rfl, rfl⟩
  have h4 := h3.enroll (etag new) hmem (Set.mem_insert _ _) (by rw [hins.row, FileDraft.workspace_row])
    (fun _ => by rw [hnew.1]; exact oneRef_self blob.id) (by
      intro hA b hb
      rw [hnew.1, hid] at hb
      rw [hnew.2]
      exact ((hseen hA).later h3.since.blobs).2 b hb)
  rw [← createInitial_ok hinit, Set.insert_sdiff_of_mem _ (Set.mem_singleton _), Set.empty_sdiff] at h4
  refine h4.settle (fun _ => ?_) (fun hA => ?_)
  · rw [hnew.1]
    exact add_sub_cancel_right 0 _
  · rw [hnew.2, (hseen hA).2 blob hblob]
    exact add_sub_cancel_right 0 _

end Transactions

end AsterDrive.Db
