import AsterDrive.Workspace.Transactions

/-!
# Effects — what committed repository calls leave behind

One closed form for each way in which the ledger grows, and one inversion lemma for each function
that does it: `Inserted` for a file row, `enroll` for the first revision of a file (`createInitial`,
and `createInitialMany` as a run of admissions), `appended` for a further revision.
-/

namespace AsterDrive.Db

open List

variable {s s' : Db}

/-! ### File rows -/

theorem FileDraft.workspace_row (d : FileDraft) (id : ℕ) : (d.row id).workspace = some d.scope.resource := by
  obtain ⟨scope, _⟩ := d
  cases scope <;> rfl

/-- The draft became the file `f`, whose name was free. -/
structure Inserted (d : FileDraft) (s : Db) (f : File) (s' : Db) : Prop where
  row : f = d.row s.files.next
  free : nameTaken s f = false
  state : s' = { s with files := s.files.insert d.row fun _ => rfl }

variable {d : FileDraft} {f : File}

theorem Inserted.mem (h : Inserted d s f s') : f ∈ s'.files.rows := by
  rw [h.state, h.row]
  exact mem_append_right _ (mem_singleton_self _)

theorem insertFile_ok {e : AsterError} (h : insertFile d e s = .ok (f, s')) : Inserted d s f s' := by
  unfold insertFile at h
  split_ifs at h with htaken
  cases h
  exact ⟨rfl, Bool.eq_false_iff.mpr htaken, rfl⟩

theorem insertFileUnder_ok {nextCopyName : String → String} {requested : String} {attempts : ℕ} {name : String}
    (h : insertFileUnder nextCopyName requested d attempts name s = .ok (f, s')) :
    ∃ name, Inserted { d with name } s f s' := by
  induction attempts generalizing name with
  | zero => exact absurd (check_ok.mp h).1 (by simp)
  | succ attempts ih =>
    unfold insertFileUnder at h
    split at h
    · rename_i r hr
      obtain ⟨f', t⟩ := r
      cases h
      exact ⟨name, insertFile_ok hr⟩
    · exact ih h

theorem insertFileByMode_ok {nextCopyName : String → String}
    {mode : NewFileNameMode} (h : insertFileByMode nextCopyName d mode s = .ok (f, s')) :
    ∃ name, Inserted { d with name } s f s' := by
  cases mode with
  | exact => exact ⟨d.name, insertFile_ok h⟩
  | resolveUnique => exact insertFileUnder_ok h

/-! ### First revisions -/

/-- The history of a file with one revision. -/
def firstHistory (file : File) (revisionId id : ℕ) : FileRevisionHistory :=
  { id, fileId := some file.id, currentRevisionId := some revisionId, nextSequence := 2 }

def firstRevision (file : File) (etag : String) (historyId id : ℕ) : FileRevision :=
  { id, historyId, sequence := 1, predecessorRevisionId := none, blobId := some file.blobId
    logicalSize := file.size, mimeType := some file.mimeType, etag }

/-- The file gets its history and its first revision. -/
def enroll (s : Db) (file : File) (etag : String) : Db :=
  let histories := s.histories.insert (firstHistory file s.revisions.next) fun _ => rfl
  let revisions := s.revisions.insert (firstRevision file etag s.histories.next) fun _ => rfl
  { s with histories, revisions }

def enrollAll (s : Db) (etag : File → String) : List File → Db
  | [] => s
  | file :: files => enrollAll (enroll s file (etag file)) etag files

/-- The history as `insert_history` writes it, before it has a head. -/
def bareHistory (file : File) (id : ℕ) : FileRevisionHistory :=
  { id, fileId := some file.id, currentRevisionId := none, nextSequence := 2 }

variable {h : FileRevisionHistory}

theorem insertHistory_ok {file : File} (hok : insertHistory file s = .ok (h, s')) :
    h = bareHistory file s.histories.next ∧
      s' = { s with histories := s.histories.insert (bareHistory file) fun _ => rfl } ∧
      ∀ x ∈ s.histories.rows, x.fileId ≠ some file.id := by
  unfold insertHistory at hok
  split_ifs at hok with hany
  cases hok
  refine ⟨rfl, rfl, ?_⟩
  intro x hx heq
  exact hany (any_eq_true.mpr ⟨x, hx, decide_eq_true heq⟩)

variable {input : NewRevision} {r : FileRevision}

theorem insertRevision_ok {historyId sequence : ℕ} {predecessor : Option ℕ}
    (hok : insertRevision historyId sequence predecessor input s = .ok (r, s')) :
    ∃ mk : ℕ → FileRevision, ∃ hmk : ∀ n, (mk n).id = n, r = mk s.revisions.next ∧
      s' = { s with revisions := s.revisions.insert mk hmk } ∧
      mk = fun id =>
        { id, historyId, sequence, predecessorRevisionId := predecessor
          blobId := some input.blobId, logicalSize := input.logicalSize
          mimeType := some input.mimeType, etag := input.etag } := by
  unfold insertRevision at hok
  split_ifs at hok
  cases hok
  exact ⟨_, _, rfl, rfl, rfl⟩

theorem createInitial_ok {file : File} {etag : String}
    (hok : createInitial file etag s = .ok (r, s')) : s' = enroll s file etag := by
  obtain ⟨h, s1, hhist, hok⟩ := bind_txn hok
  obtain ⟨r', s2, hrev, hok⟩ := bind_txn hok
  obtain ⟨u, s3, hcur, hok⟩ := bind_txn hok
  cases hok
  obtain ⟨rfl, rfl, _⟩ := insertHistory_ok hhist
  obtain ⟨mk, hmk, rfl, rfl, rfl⟩ := insertRevision_ok hrev
  cases hcur
  dsimp only
  congr 1
  refine SerialTable.updateRows_insert s.histories _ _ _ ?_ (by simp [bareHistory]) rfl
  intro x hx
  have hlt := s.histories.below x hx
  rw [decide_eq_false_iff_not]
  show x.id ≠ s.histories.next
  omega

theorem mapM_createInitial_ok {files : List File} {etag : File → String} {rs : List FileRevision}
    (hok : (files.mapM fun file => createInitial file (etag file)) s = .ok (rs, s')) :
    s' = enrollAll s etag files := by
  induction files generalizing s rs with
  | nil =>
    cases hok
    rfl
  | cons file files ih =>
    rw [mapM_cons] at hok
    obtain ⟨r, s1, hone, hok⟩ := bind_txn hok
    obtain ⟨rs', s2, hrest, hok⟩ := bind_txn hok
    cases hok
    rw [ih hrest, createInitial_ok hone]
    rfl

/-! ### First revisions in one batch

`createInitialMany` writes all histories, then all revisions, then all heads. The rows it leaves are
those of `enrollAll`, which writes them file by file. -/

def bareHistories : ℕ → List File → List FileRevisionHistory
  | _, [] => []
  | h, file :: files => bareHistory file h :: bareHistories (h + 1) files

def firstHistories : ℕ → ℕ → List File → List FileRevisionHistory
  | _, _, [] => []
  | h, m, file :: files => firstHistory file m h :: firstHistories (h + 1) (m + 1) files

def firstRevisions (etag : File → String) : ℕ → ℕ → List File → List FileRevision
  | _, _, [] => []
  | h, m, file :: files =>
    firstRevision file (etag file) h m :: firstRevisions etag (h + 1) (m + 1) files

section Batch

variable {etag : File → String} {files : List File} {h m : ℕ}

theorem mem_bareHistories {x : FileRevisionHistory} (hx : x ∈ bareHistories h files) :
    h ≤ x.id ∧ x.id < h + files.length ∧ ∃ f ∈ files, x.fileId = some f.id := by
  induction files generalizing h with
  | nil => simp [bareHistories] at hx
  | cons file files ih =>
    rcases mem_cons.mp hx with rfl | hx'
    · exact ⟨le_refl _, by simp [bareHistory], file, mem_cons_self, rfl⟩
    · obtain ⟨hle, hlt, f, hf, hfx⟩ := ih hx'
      refine ⟨by omega, by simp only [length_cons]; omega, f, mem_cons_of_mem _ hf, hfx⟩

theorem bareHistories_ids : (bareHistories h files).map FileRevisionHistory.id = List.range' h files.length := by
  induction files generalizing h with
  | nil => rfl
  | cons file files ih =>
    rw [bareHistories, map_cons, ih, length_cons, range'_succ]
    rfl

theorem mem_firstRevisions {r : FileRevision} (hr : r ∈ firstRevisions etag h m files) :
    h ≤ r.historyId ∧ r.historyId < h + files.length ∧ r.sequence = 1 := by
  induction files generalizing h m with
  | nil => simp [firstRevisions] at hr
  | cons file files ih =>
    rcases mem_cons.mp hr with rfl | hr'
    · exact ⟨le_refl _, by simp [firstRevision], rfl⟩
    · obtain ⟨hle, hlt, hseq⟩ := ih hr'
      refine ⟨by omega, by simp only [length_cons]; omega, hseq⟩

theorem find_firstRevisions {k : ℕ} (hle : h ≤ k) (hlt : k < h + files.length) :
    ((firstRevisions etag h m files).find? fun r => r.historyId = k).map FileRevision.id = some (m + (k - h)) := by
  induction files generalizing h m with
  | nil =>
    simp only [length_nil] at hlt
    omega
  | cons file files ih =>
    rw [firstRevisions, find?_cons]
    by_cases hk : h = k
    · have hhit : decide ((firstRevision file (etag file) h m).historyId = k) = true := decide_eq_true hk
      rw [hhit, Option.map_some, hk]
      simp [firstRevision]
    · have hmiss : decide ((firstRevision file (etag file) h m).historyId = k) = false := decide_eq_false hk
      rw [hmiss, ih (by omega) (by simp only [length_cons] at hlt; omega)]
      congr 1
      omega

theorem firstHistories_eq : firstHistories h m files = (bareHistories h files).map fun x =>
    { x with currentRevisionId := some (m + (x.id - h)) } := by
  induction files generalizing h m with
  | nil => rfl
  | cons file files ih =>
    rw [firstHistories, bareHistories, map_cons, ih]
    congr 1
    · simp [firstHistory, bareHistory]
    · refine map_congr_left ?_
      intro x hx
      have hle := (mem_bareHistories hx).1
      have hid : m + 1 + (x.id - (h + 1)) = m + (x.id - h) := by omega
      rw [hid]

/-- `s'` has these histories and revisions more than `s`. -/
structure Grew (s s' : Db) (hs : List FileRevisionHistory) (rs : List FileRevision) : Prop where
  histories : s'.histories.rows = s.histories.rows ++ hs
  nextHistory : s'.histories.next = s.histories.next + hs.length
  revisions : s'.revisions.rows = s.revisions.rows ++ rs
  nextRevision : s'.revisions.next = s.revisions.next + rs.length
  rest : s' = { s with histories := s'.histories, revisions := s'.revisions }

variable {hs : List FileRevisionHistory} {rs : List FileRevision}

theorem Grew.unique {a b : Db} (ha : Grew s a hs rs) (hb : Grew s b hs rs) : a = b := by
  have hH : a.histories = b.histories :=
    SerialTable.eq_of_rows (ha.histories.trans hb.histories.symm) (ha.nextHistory.trans hb.nextHistory.symm)
  have hR : a.revisions = b.revisions :=
    SerialTable.eq_of_rows (ha.revisions.trans hb.revisions.symm) (ha.nextRevision.trans hb.nextRevision.symm)
  rw [ha.rest, hb.rest, hH, hR]

theorem Grew.refl (s : Db) : Grew s s [] [] := ⟨by simp, rfl, by simp, rfl, rfl⟩

theorem Grew.trans {a b c : Db} {hs' : List FileRevisionHistory} {rs' : List FileRevision}
    (hab : Grew a b hs rs) (hbc : Grew b c hs' rs') : Grew a c (hs ++ hs') (rs ++ rs') := by
  refine ⟨?_, ?_, ?_, ?_, ?_⟩
  · rw [hbc.histories, hab.histories, append_assoc]
  · rw [hbc.nextHistory, hab.nextHistory, length_append, add_assoc]
  · rw [hbc.revisions, hab.revisions, append_assoc]
  · rw [hbc.nextRevision, hab.nextRevision, length_append, add_assoc]
  · have hrest := hbc.rest
    rw [hab.rest] at hrest
    exact hrest

theorem grew_enrollAll (s : Db) (etag : File → String) (files : List File) :
    Grew s (enrollAll s etag files) (firstHistories s.histories.next s.revisions.next files)
      (firstRevisions etag s.histories.next s.revisions.next files) := by
  induction files generalizing s with
  | nil => exact .refl s
  | cons file files ih =>
    have hone : Grew s (enroll s file (etag file)) [firstHistory file s.revisions.next s.histories.next]
        [firstRevision file (etag file) s.histories.next s.revisions.next] :=
      ⟨rfl, rfl, rfl, rfl, rfl⟩
    exact hone.trans (ih (enroll s file (etag file)))

theorem mapM_insertHistory_ok (hok : files.mapM insertHistory s = .ok (hs, s')) :
    Grew s s' (bareHistories s.histories.next files) [] ∧
      ∀ x ∈ s.histories.rows, ∀ f ∈ files, x.fileId ≠ some f.id := by
  induction files generalizing s hs with
  | nil =>
    obtain ⟨_, rfl⟩ := pure_txn_ok.mp hok
    exact ⟨.refl s, by simp⟩
  | cons file files ih =>
    rw [mapM_cons] at hok
    obtain ⟨x, s1, hone, hok⟩ := bind_txn hok
    obtain ⟨xs, s2, hrest, hok⟩ := bind_txn hok
    obtain ⟨_, rfl⟩ := pure_txn_ok.mp hok
    obtain ⟨_, rfl, hfree⟩ := insertHistory_ok hone
    obtain ⟨hgrew, hfrees⟩ := ih hrest
    have hfirst : Grew s { s with histories := s.histories.insert (bareHistory file) fun _ => rfl }
        [bareHistory file s.histories.next] [] := ⟨rfl, rfl, by simp, rfl, rfl⟩
    refine ⟨hfirst.trans hgrew, ?_⟩
    intro y hy f hf
    rcases mem_cons.mp hf with rfl | hf
    · exact hfree y hy
    · exact hfrees y (mem_append_left _ hy) f hf

theorem mapM_insertInitialRevision_ok {all : List File} (hall : ∀ f ∈ files, (all.find? fun x => x.id = f.id) = some f)
    (hok : (bareHistories h files).mapM (insertInitialRevision all etag) s = .ok (rs, s')) :
    Grew s s' [] (firstRevisions etag h s.revisions.next files) := by
  induction files generalizing s rs h with
  | nil =>
    obtain ⟨_, rfl⟩ := pure_txn_ok.mp hok
    exact .refl s
  | cons file files ih =>
    rw [bareHistories, mapM_cons] at hok
    obtain ⟨x, s1, hone, hok⟩ := bind_txn hok
    obtain ⟨xs, s2, hrest, hok⟩ := bind_txn hok
    obtain ⟨_, rfl⟩ := pure_txn_ok.mp hok
    obtain ⟨i, hi, hone⟩ := bind_orFail_ok.mp hone
    obtain rfl : file.id = i := Option.some.inj hi
    obtain ⟨f, hf, hone⟩ := bind_orFail_ok.mp hone
    rw [hall file mem_cons_self] at hf
    cases hf
    obtain ⟨mk, hmk, _, rfl, rfl⟩ := insertRevision_ok hone
    have hgrew := ih (fun f hf => hall f (mem_cons_of_mem _ hf)) hrest
    have hfirst : Grew s { s with revisions := s.revisions.insert (firstRevision file (etag file) h) fun _ => rfl }
        [] [firstRevision file (etag file) h s.revisions.next] := ⟨by simp, rfl, rfl, rfl, rfl⟩
    exact hfirst.trans hgrew

theorem publishHeads_ok {s0 : Db} {u : Unit}
    (hrows : s.histories.rows = s0.histories.rows ++ bareHistories s0.histories.next files)
    (hok : publishHeads (bareHistories s0.histories.next files)
      (firstRevisions etag s0.histories.next m files) s = .ok (u, s')) :
    s'.histories.rows = s0.histories.rows ++ firstHistories s0.histories.next m files ∧
      s'.histories.next = s.histories.next ∧ s' = { s with histories := s'.histories } := by
  unfold publishHeads at hok
  split_ifs at hok with hall
  dsimp only at hok
  split_ifs at hok with haff
  cases hok
  refine ⟨?_, rfl, rfl⟩
  show s.histories.rows.map _ = _
  rw [hrows, map_append, firstHistories_eq, bareHistories_ids]
  congr 1
  · refine (map_congr_left fun x hx => ?_).trans (map_id _)
    have hlt := s0.histories.below x hx
    rw [if_neg]
    · rfl
    · rw [decide_eq_true_eq, mem_range'_1]
      omega
  · refine map_congr_left ?_
    intro x hx
    obtain ⟨hle, hlt, _⟩ := mem_bareHistories hx
    rw [if_pos (decide_eq_true (mem_range'_1.mpr ⟨hle, hlt⟩))]
    dsimp only
    rw [find_firstRevisions hle hlt]

/-- **The batch does what the single insertions do.** -/
theorem createInitialMany_ok (hfiled : ∀ r ∈ s.revisions.rows, r.historyId < s.histories.next)
    (hok : createInitialMany files etag s = .ok (rs, s')) :
    s' = enrollAll s etag files ∧ (files.map File.id).Nodup := by
  obtain ⟨hnodup, hok1⟩ := bind_ensure_ok.mp hok
  obtain ⟨hs, s1, hhist, hok2⟩ := bind_txn hok1
  obtain ⟨hgrew, hfree⟩ := mapM_insertHistory_ok hhist
  have hok3 := bind_get_ok.mp hok2
  -- the histories that are reloaded are the ones just written
  have hreload : (s1.histories.rows.filter fun h => decide (∃ f ∈ files, h.fileId = some f.id)) =
      bareHistories s.histories.next files := by
    rw [hgrew.histories, filter_append, filter_eq_nil_iff.mpr, nil_append, filter_eq_self.mpr]
    · intro x hx
      exact decide_eq_true (mem_bareHistories hx).2.2
    · intro x hx
      rw [decide_eq_true_eq]
      rintro ⟨f, hf, heq⟩
      exact hfree x hx f hf heq
  rw [hreload] at hok3
  obtain ⟨_, hok4⟩ := bind_ensure_ok.mp hok3
  obtain ⟨rs', s2, hrev, hok5⟩ := bind_txn hok4
  have hfind : ∀ f ∈ files, (files.find? fun x => x.id = f.id) = some f := by
    intro f hf
    exact Table.get_of_mem (t := ⟨files, hnodup⟩) hf
  have hgrew2 := mapM_insertInitialRevision_ok hfind hrev
  have hboth := hgrew.trans hgrew2
  rw [append_nil, nil_append, hgrew.nextRevision, length_nil, add_zero] at hboth
  have hok6 := bind_get_ok.mp hok5
  -- and so are the revisions
  have hreload2 : (s2.revisions.rows.filter fun r =>
      decide ((∃ h ∈ bareHistories s.histories.next files, r.historyId = h.id) ∧ r.sequence = 1)) =
      firstRevisions etag s.histories.next s.revisions.next files := by
    rw [hboth.revisions, filter_append, filter_eq_nil_iff.mpr, nil_append, filter_eq_self.mpr]
    · intro r hr
      obtain ⟨hle, hlt, hseq⟩ := mem_firstRevisions hr
      have hid : r.historyId ∈ (bareHistories s.histories.next files).map FileRevisionHistory.id := by
        rw [bareHistories_ids]
        exact mem_range'_1.mpr ⟨hle, hlt⟩
      obtain ⟨x, hx, hxr⟩ := mem_map.mp hid
      exact decide_eq_true ⟨⟨x, hx, hxr.symm⟩, hseq⟩
    · intro r hr
      rw [decide_eq_true_eq]
      rintro ⟨⟨x, hx, hxr⟩, _⟩
      have hlt := hfiled r hr
      have hle := (mem_bareHistories hx).1
      omega
  rw [hreload2] at hok6
  obtain ⟨_, hok7⟩ := bind_ensure_ok.mp hok6
  obtain ⟨_, s3, hpub, hok8⟩ := bind_txn hok7
  obtain ⟨_, rfl⟩ := pure_txn_ok.mp hok8
  obtain ⟨hrows, hnext, hrest⟩ := publishHeads_ok hboth.histories hpub
  have hrev3 : s3.revisions = s2.revisions := by rw [hrest]
  refine ⟨Grew.unique ⟨hrows, ?_, ?_, ?_, ?_⟩ (grew_enrollAll s etag files), hnodup⟩
  · rw [hnext, hboth.nextHistory, firstHistories_eq, length_map]
  · rw [hrev3]
    exact hboth.revisions
  · rw [hrev3]
    exact hboth.nextRevision
  · have hrest' := hrest
    rw [hboth.rest] at hrest'
    rw [hrev3]
    exact hrest'

end Batch

/-! ### Further revisions -/

def nextRevision (h : FileRevisionHistory) (input : NewRevision) (id : ℕ) : FileRevision :=
  { id, historyId := h.id, sequence := h.nextSequence
    predecessorRevisionId := h.currentRevisionId, blobId := some input.blobId
    logicalSize := input.logicalSize, mimeType := some input.mimeType, etag := input.etag }

def withHead (revisionId nextSequence : ℕ) (x : FileRevisionHistory) : FileRevisionHistory :=
  { x with currentRevisionId := some revisionId, nextSequence }

/-- The history gets a new head. -/
def appended (s : Db) (h : FileRevisionHistory) (input : NewRevision) : Db :=
  let revisions := s.revisions.insert (nextRevision h input) fun _ => rfl
  let histories := s.histories.updateRows (fun x => x.id = h.id)
    (withHead s.revisions.next (h.nextSequence + 1)) fun _ => rfl
  { s with revisions, histories }

variable {fileId : ℕ}

theorem lockHistory_ok (hok : lockHistoryByFileId fileId s = .ok (h, s')) :
    s' = s ∧ h ∈ s.histories.rows ∧ h.fileId = some fileId := by
  replace hok := bind_get_ok.mp hok
  obtain ⟨hfind, rfl⟩ := orFail_ok.mp hok
  have hp := find?_some hfind
  exact ⟨rfl, mem_of_find?_eq_some hfind, of_decide_eq_true hp⟩

theorem appendLocked_ok (hok : appendLocked h input s = .ok (r, s')) : s' = appended s h input := by
  obtain ⟨r', s1, hrev, hok⟩ := bind_txn hok
  obtain ⟨_, hok⟩ := bind_ensure_ok.mp hok
  obtain ⟨u', s3, hadv, hok⟩ := bind_txn hok
  cases hok
  obtain ⟨mk, hmk, rfl, rfl, rfl⟩ := insertRevision_ok hrev
  cases hadv
  rfl

theorem append_ok {expected : Option ℕ} (hok : append fileId expected input s = .ok (r, s')) :
    ∃ h ∈ s.histories.rows, h.fileId = some fileId ∧ s' = appended s h input := by
  obtain ⟨h, s1, hlock, hrest⟩ := bind_txn hok
  obtain ⟨rfl, hmem, hfile⟩ := lockHistory_ok hlock
  obtain ⟨_, happ⟩ := bind_ensure_ok.mp hrest
  exact ⟨h, hmem, hfile, appendLocked_ok happ⟩

theorem ensureEtag_ok {etag : Option String} {u : Unit} (hok : ensureEtag fileId h etag s = .ok (u, s')) : s' = s := by
  cases etag with
  | none => exact (pure_txn_ok.mp hok).2.symm
  | some expected =>
    replace hok := bind_get_ok.mp hok
    obtain ⟨i, _, hok⟩ := bind_orFail_ok.mp hok
    obtain ⟨r, _, hok⟩ := bind_orFail_ok.mp hok
    exact (ensure_ok.mp hok).2.symm

theorem appendForExpectedEtag_ok {etag : Option String}
    (hok : appendForExpectedEtag fileId etag input s = .ok (r, s')) :
    ∃ h ∈ s.histories.rows, h.fileId = some fileId ∧ s' = appended s h input := by
  obtain ⟨h, s1, hlock, hrest⟩ := bind_txn hok
  obtain ⟨rfl, hmem, hfile⟩ := lockHistory_ok hlock
  obtain ⟨_, s2, hcond, happ⟩ := bind_txn hrest
  obtain rfl := ensureEtag_ok hcond
  exact ⟨h, hmem, hfile, appendLocked_ok happ⟩

theorem appendExpecting_ok {locked : Option ℕ} {expected : ExpectedHead}
    (hok : appendExpecting fileId locked expected input s = .ok (r, s')) :
    ∃ h ∈ s.histories.rows, h.fileId = some fileId ∧ s' = appended s h input := by
  unfold appendExpecting at hok
  split_ifs at hok
  · exact appendForExpectedEtag_ok hok
  · exact append_ok hok

end AsterDrive.Db
