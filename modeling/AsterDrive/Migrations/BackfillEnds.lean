import AsterDrive.Migrations.HistoryPreserved

/-!
# BackfillEnds — an attempt that is not cut off runs to its end

No insert of the backfill meets a row with its key: ids of current revisions are above all others, and the versions of a
file are met once. So an attempt with enough pages ends, as long as ids and sequences fit 64 bits (`up_ends`).
-/

namespace AsterDrive.RevisionLedger

open List

section Inserts

variable {t : Ledger}

theorem insertNew_of_fresh {ρ κ : Type} {key : ρ → κ} [DecidableEq κ] {t : Table key} {r : ρ}
    (h : ∀ x ∈ t.rows, key x ≠ key r) : ∃ t', t.insertNew r = some t' := by
  cases hnone : t.insertNew r with
  | some t' => exact ⟨t', rfl⟩
  | none =>
    obtain ⟨x, hx⟩ := Table.insertNew_eq_none.mp hnone
    exact absurd (Table.key_of_get hx) (h x (Table.mem_of_get hx))

theorem checkedSucc_of_le {n : ℤ} (message : String) (h : n + 1 ≤ i64Max) : checkedSucc n message = .ok (n + 1) := by
  unfold checkedSucc
  rw [if_pos h]

theorem insertRevision_succeeds {r : FileRevision} (hid : ∀ x ∈ t.revisions.rows, x.id ≠ r.id)
    (hsequence : ∀ x ∈ t.revisions.rows, x.historyId = r.historyId → x.sequence ≠ r.sequence) :
    ∃ t', insertRevision t r = .ok t' := by
  obtain ⟨revisions, hnew⟩ := insertNew_of_fresh hid
  refine ⟨{ t with revisions }, ?_⟩
  unfold insertRevision
  rw [if_neg, hnew]
  rw [any_eq_true]
  rintro ⟨x, hx, hboth⟩
  rw [decide_eq_true_eq] at hboth
  exact hsequence x hx hboth.1 hboth.2

/-- Sequences of the history are below the next one, and ids below the next one. -/
structure Room (fileId next : ℤ) (c : Chain) : Prop where
  sequences : ∀ r ∈ c.ledger.revisions.rows, r.historyId = fileId → r.sequence < c.sequence
  ids : ∀ r ∈ c.ledger.revisions.rows, r.id < next

theorem insertLegacyRevisions_succeeds {vs : List LegacyRevision} {fileId next : ℤ} {c : Chain} (h : Room fileId next c)
    (hids : (vs.map LegacyRevision.id).Nodup) (hnew : ∀ v ∈ vs, v.id < next ∧ ∀ r ∈ c.ledger.revisions.rows, r.id ≠ v.id)
    (hlength : c.sequence + vs.length ≤ i64Max) :
    ∃ c', vs.foldlM (insertLegacyRevision fileId) c = .ok c' ∧ Room fileId next c' := by
  induction vs generalizing c with
  | nil => exact ⟨c, rfl, h⟩
  | cons v vs ih =>
    obtain ⟨hv, hids⟩ := nodup_cons.mp hids
    rw [length_cons] at hlength
    let r : FileRevision :=
      { id := v.id, historyId := fileId, sequence := c.sequence, predecessorRevisionId := c.predecessor
        blobId := some v.blobId, logicalSize := v.size, mimeType := none, creatorUserId := none
        creatorDisplayName := none, reason := "migration_history", createdAt := v.createdAt }
    obtain ⟨hlt, hfresh⟩ := hnew v mem_cons_self
    obtain ⟨t, ht⟩ : ∃ t, insertRevision c.ledger r = .ok t := by
      refine insertRevision_succeeds hfresh fun x hx hfile => ?_
      have hbelow := h.sequences x hx hfile
      exact ne_of_lt hbelow
    let c1 : Chain := { ledger := t, predecessor := some v.id, sequence := c.sequence + 1 }
    have hfirst : insertLegacyRevision fileId c v = .ok c1 := by
      refine bind_ok_iff.mpr ⟨t, ht, bind_ok_iff.mpr ⟨c.sequence + 1, checkedSucc_of_le _ (by omega), rfl⟩⟩
    have hrows : ∀ x ∈ t.revisions.rows, x ∈ c.ledger.revisions.rows ∨ x = r := by
      intro x hx
      rw [(insertRevision_ok ht).1, mem_append, mem_singleton] at hx
      exact hx
    have hroom : Room fileId next c1 := by
      refine ⟨fun x hx hfile => ?_, fun x hx => ?_⟩
      · show x.sequence < c.sequence + 1
        rcases hrows x hx with hold | rfl
        · have hbelow := h.sequences x hold hfile
          omega
        · exact Int.lt_succ c.sequence
      · rcases hrows x hx with hold | rfl
        · exact h.ids x hold
        · exact hlt
    have hrest : ∀ x ∈ vs, x.id < next ∧ ∀ y ∈ c1.ledger.revisions.rows, y.id ≠ x.id := by
      intro x hx
      obtain ⟨hxlt, hxfresh⟩ := hnew x (mem_cons_of_mem _ hx)
      refine ⟨hxlt, fun y hy => ?_⟩
      rcases hrows y hy with hold | rfl
      · exact hxfresh y hold
      · intro heq
        exact hv (mem_map.mpr ⟨x, hx, heq.symm⟩)
    have hleft : c1.sequence + (vs.length : ℤ) ≤ i64Max := by
      show c.sequence + 1 + (vs.length : ℤ) ≤ i64Max
      omega
    obtain ⟨c', hc', hroom'⟩ := ih hroom hids hrest hleft
    refine ⟨c', ?_, hroom'⟩
    exact bind_ok_iff.mpr ⟨c1, hfirst, hc'⟩

theorem insertProperties_succeeds {ps : List FileRevisionProperty}
    (h : ((t.properties.rows ++ ps).map FileRevisionProperty.key).Nodup) : ∃ t', ps.foldlM insertProperty t = .ok t' := by
  induction ps generalizing t with
  | nil => exact ⟨t, rfl⟩
  | cons p ps ih =>
    obtain ⟨new, hnew⟩ : ∃ new, t.properties.insertNew p = some new := by
      refine insertNew_of_fresh fun x hx heq => ?_
      rw [map_append, nodup_append] at h
      exact h.2.2 _ (mem_map_of_mem hx) _ (by simp) heq
    obtain ⟨t', ht'⟩ := @ih { t with properties := new } (by
      rw [(Table.insertNew_eq_some hnew).2, append_assoc]
      exact h)
    refine ⟨t', ?_⟩
    refine bind_ok_iff.mpr ⟨_, ?_, ht'⟩
    unfold insertProperty
    rw [hnew]

end Inserts

section Backfill

variable {db : Database} {versions : Table LegacyRevision.id} {t : Ledger} {s : Backfill} {done : List (LegacyFile × ℤ)}
  {file : LegacyFile}

theorem Migrated.nodup (h : Migrated db versions t done) : (done.map fun d => d.1.id).Nodup := by
  have hunique := t.histories.unique
  rw [h.histories, map_map] at hunique
  exact hunique

theorem Migrated.ids (h : Migrated db versions t done) {r : FileRevision} (hr : r ∈ t.revisions.rows) :
    ∃ d ∈ done, r.historyId = d.1.id ∧ (r.id = d.2 ∨ ∃ v ∈ versions.rows, v.id = r.id ∧ v.fileId = d.1.id) := by
  rw [h.revisions] at hr
  obtain ⟨d, hd, hr⟩ := mem_flatMap.mp hr
  have hchain : ∀ (vs : List LegacyRevision) (p : Option ℤ) (n : ℤ), r ∈ chainOf p n vs →
      ∃ v ∈ vs, r.id = v.id ∧ r.historyId = v.fileId := by
    intro vs
    induction vs with
    | nil =>
      intro p n hin
      cases hin
    | cons v vs ih =>
      intro p n hin
      rcases mem_cons.mp hin with rfl | hin
      · exact ⟨v, mem_cons_self, rfl, rfl⟩
      · obtain ⟨x, hx, hid⟩ := ih _ _ hin
        exact ⟨x, mem_cons_of_mem _ hx, hid⟩
  rcases mem_append.mp hr with hr | hr
  · obtain ⟨v, hv, hid, hhistory⟩ := hchain _ _ _ hr
    obtain ⟨hrow, hfile⟩ := fileId_of_mem_legacyOrder hv
    exact ⟨d, hd, hhistory.trans hfile, .inr ⟨v, hrow, hid.symm, hfile⟩⟩
  · rw [mem_singleton.mp hr]
    exact ⟨d, hd, rfl, .inl rfl⟩

/-- Every id that was given out is below the next one. -/
def Below (versions : Table LegacyRevision.id) (done : List (LegacyFile × ℤ)) (next : ℤ) : Prop :=
  (∀ v ∈ versions.rows, v.id < next) ∧ ∀ d ∈ done, d.2 < next

theorem Below.ids (hbelow : Below versions done s.nextRevisionId) (h : Migrated db versions s.ledger done) :
    ∀ r ∈ s.ledger.revisions.rows, r.id < s.nextRevisionId := by
  intro r hr
  obtain ⟨d, hd, _, hid | ⟨v, hv, hid, _⟩⟩ := h.ids hr
  · rw [hid]
    exact hbelow.2 d hd
  · rw [← hid]
    exact hbelow.1 v hv

theorem nodup_snapshots (properties : Table EntityProperty.key) (fileId revisionId : ℤ) :
    (((liveUserProperties properties fileId).map fun p => p.snapshot revisionId).map FileRevisionProperty.key).Nodup := by
  rw [map_map]
  refine Nodup.map_on ?_ (properties.unique.of_map.filter _)
  intro p hp q hq hkey
  obtain ⟨hp, hpfile⟩ := mem_filter.mp hp
  obtain ⟨hq, hqfile⟩ := mem_filter.mp hq
  rw [decide_eq_true_eq] at hpfile hqfile
  have hnames : (p.propertyNamespace, p.propertyName) = (q.propertyNamespace, q.propertyName) := congrArg Prod.snd hkey
  apply Table.eq_of_key hp hq
  unfold EntityProperty.key
  rw [hpfile.1, hqfile.1, hpfile.2.1, hqfile.2.1, hnames]

/-- **A file that is not yet migrated** can be. -/
theorem backfillFile_succeeds (h : Migrated db versions s.ledger done) (hnew : ∀ d ∈ done, d.1.id ≠ file.id)
    (hbelow : Below versions done s.nextRevisionId) (hid : s.nextRevisionId + 1 ≤ i64Max)
    (hlength : ((versionsOf versions file.id).length : ℤ) + 2 ≤ i64Max) :
    ∃ s', backfillFile versions db.properties s file = .ok s' := by
  -- nothing of the file is there
  have hnone : ∀ r ∈ s.ledger.revisions.rows, r.historyId ≠ file.id := by
    intro r hr heq
    obtain ⟨d, hd, hhistory, _⟩ := h.ids hr
    exact hnew d hd (hhistory.symm.trans heq)
  obtain ⟨t1, ht1⟩ : ∃ t1, insertHistory s.ledger file = .ok t1 := by
    have hrows : ∀ x ∈ s.ledger.histories.rows, x.id ≠ file.id ∧ x.fileId ≠ some file.id := by
      intro x hx
      rw [h.histories] at hx
      obtain ⟨d, hd, rfl⟩ := mem_map.mp hx
      exact ⟨hnew d hd, fun heq => hnew d hd (Option.some.inj heq)⟩
    have hfree : ¬ (s.ledger.histories.rows.any fun x => x.fileId = some file.id) = true := by
      rw [any_eq_true]
      rintro ⟨x, hx, heq⟩
      exact (hrows x hx).2 (of_decide_eq_true heq)
    let row : FileRevisionHistory :=
      { id := file.id, fileId := some file.id, nextSequence := 1, createdAt := file.createdAt }
    have hfresh : ∀ x ∈ s.ledger.histories.rows, x.id ≠ row.id := fun x hx => (hrows x hx).1
    obtain ⟨histories, hins⟩ := insertNew_of_fresh hfresh
    refine ⟨{ s.ledger with histories }, ?_⟩
    unfold insertHistory
    rw [if_neg hfree, hins]
  obtain ⟨_, hrevisions, hproperties⟩ := insertHistory_ok ht1
  have hroom : Room file.id s.nextRevisionId { ledger := t1 } := by
    refine ⟨fun r hr hfile => ?_, fun r hr => ?_⟩
    · rw [hrevisions] at hr
      exact absurd hfile (hnone r hr)
    · rw [hrevisions] at hr
      exact hbelow.ids h r hr
  have hperm : (legacyOrder versions file.id).Perm (versionsOf versions file.id) := by
    unfold legacyOrder Keyset.behind
    rw [filter_eq_self.mpr fun v _ => by simp [Keyset.isBehind]]
    exact perm_insertionSort _ _
  have hids : ((legacyOrder versions file.id).map LegacyRevision.id).Nodup :=
    (hperm.map _).nodup_iff.mpr (versions.unique.sublist (List.filter_sublist.map _))
  obtain ⟨c, hfold, hroom'⟩ := insertLegacyRevisions_succeeds hroom hids (fun v hv => by
      obtain ⟨hrow, hfile⟩ := fileId_of_mem_legacyOrder hv
      refine ⟨hbelow.1 v hrow, fun r hr heq => ?_⟩
      rw [hrevisions] at hr
      obtain ⟨d, hd, _, hcur | ⟨x, hx, hxid, hxfile⟩⟩ := h.ids hr
      · have habove := h.above d hd v hrow
        omega
      · rw [Table.eq_of_key hx hrow (hxid.trans heq), hfile] at hxfile
        exact hnew d hd hxfile.symm) (by
      rw [length_legacyOrder]
      show 1 + _ ≤ _
      omega)
  obtain ⟨_, _, hp2, _, hsequence⟩ := insertLegacyRevisions_ok (fun v hv => (fileId_of_mem_legacyOrder hv).2) hfold
  have hlast : c.sequence + 1 ≤ i64Max := by
    rw [hsequence, length_legacyOrder]
    show 1 + _ + 1 ≤ _
    omega
  let current : FileRevision :=
    { id := s.nextRevisionId, historyId := file.id, sequence := c.sequence, predecessorRevisionId := c.predecessor
      blobId := some file.blobId, logicalSize := file.size, mimeType := some file.mimeType
      creatorUserId := file.createdByUserId, creatorDisplayName := some file.createdByUsername
      reason := "migration_current", createdAt := file.updatedAt }
  obtain ⟨t3, ht3⟩ : ∃ t3, insertRevision c.ledger current = .ok t3 := by
    refine insertRevision_succeeds (fun x hx => ?_) fun x hx hfile => ?_
    · exact ne_of_lt (hroom'.ids x hx)
    · exact ne_of_lt (hroom'.sequences x hx hfile)
  obtain ⟨_, _, hp3⟩ := insertRevision_ok ht3
  obtain ⟨t4, ht4⟩ : ∃ t4, snapshotLiveUserProperties db.properties t3 file.id s.nextRevisionId = .ok t4 := by
    refine insertProperties_succeeds ?_
    rw [hp3, hp2, hproperties, map_append, nodup_append]
    refine ⟨s.ledger.properties.unique, nodup_snapshots _ _ _, ?_⟩
    rintro k hk k' hk' rfl
    obtain ⟨p, hp, hpk⟩ := mem_map.mp hk
    obtain ⟨q, hq, hqk⟩ := mem_map.mp hk'
    obtain ⟨q0, _, rfl⟩ := mem_map.mp hq
    rw [h.properties] at hp
    obtain ⟨d, hd, hp⟩ := mem_flatMap.mp hp
    obtain ⟨p0, _, rfl⟩ := mem_map.mp hp
    have hrevision : d.2 = s.nextRevisionId := congrArg Prod.fst (hpk.trans hqk.symm)
    exact ne_of_lt (hbelow.2 d hd) hrevision
  refine ⟨{ ledger := updateHistoryHead t4 file.id s.nextRevisionId (c.sequence + 1), nextRevisionId := s.nextRevisionId + 1 }, ?_⟩
  refine bind_ok_iff.mpr ⟨t1, ht1, bind_ok_iff.mpr ⟨c, ?_, bind_ok_iff.mpr ⟨_, checkedSucc_of_le _ hid,
    bind_ok_iff.mpr ⟨t3, ht3, bind_ok_iff.mpr ⟨t4, ht4, bind_ok_iff.mpr ⟨_, checkedSucc_of_le _ hlast, rfl⟩⟩⟩⟩⟩⟩
  rw [backfillVersions_eq]
  exact hfold

theorem Migrated.length_lt (h : Migrated db versions t done) (hfile : file ∈ db.files.rows)
    (hnew : ∀ d ∈ done, d.1.id ≠ file.id) : done.length < db.files.rows.length := by
  have hnodup : (file.id :: done.map fun d => d.1.id).Nodup := by
    refine nodup_cons.mpr ⟨fun hin => ?_, h.nodup⟩
    obtain ⟨d, hd, hid⟩ := mem_map.mp hin
    exact hnew d hd hid
  have hsub : (file.id :: done.map fun d => d.1.id) ⊆ db.files.rows.map LegacyFile.id := by
    intro i hi
    rcases mem_cons.mp hi with rfl | hi
    · exact mem_map_of_mem hfile
    · obtain ⟨d, hd, rfl⟩ := mem_map.mp hi
      exact mem_map_of_mem (h.files d hd)
  have hle := (hnodup.subperm hsub).length_le
  rw [length_cons, length_map, length_map] at hle
  omega

/-- Ids and sequences fit 64 bits. -/
structure Fits (db : Database) (versions : Table LegacyRevision.id) (start : ℤ) : Prop where
  ids : start + db.files.rows.length ≤ i64Max
  sequences : ∀ f ∈ db.files.rows, ((versionsOf versions f.id).length : ℤ) + 2 ≤ i64Max

/-- Where an attempt is that began with the id `start` and an empty ledger. -/
structure Progress (db : Database) (versions : Table LegacyRevision.id) (start : ℤ) (s : Backfill)
    (done : List (LegacyFile × ℤ)) : Prop where
  migrated : Migrated db versions s.ledger done
  below : Below versions done s.nextRevisionId
  next : s.nextRevisionId = start + done.length

theorem Progress.file_succeeds {start : ℤ} (h : Progress db versions start s done) (hfits : Fits db versions start)
    (hfile : file ∈ db.files.rows) (hnew : ∀ d ∈ done, d.1.id ≠ file.id) :
    ∃ s', backfillFile versions db.properties s file = .ok s' ∧
      Progress db versions start s' (done ++ [(file, s.nextRevisionId)]) := by
  have hlt := h.migrated.length_lt hfile hnew
  have hnext := h.next
  have hids := hfits.ids
  obtain ⟨s', hok⟩ := backfillFile_succeeds h.migrated hnew h.below (by omega) (hfits.sequences file hfile)
  obtain ⟨hmigrated, hsucc⟩ := backfillFile_ok h.migrated hfile h.below.1 hok
  refine ⟨s', hok, hmigrated, ⟨fun v hv => ?_, fun d hd => ?_⟩, ?_⟩
  · have hv := h.below.1 v hv
    omega
  · rcases mem_append.mp hd with hd | hd
    · have hd := h.below.2 d hd
      omega
    · rw [mem_singleton.mp hd]
      show s.nextRevisionId < _
      omega
  · rw [hsucc, hnext, length_append, length_singleton]
    omega

/-- **A page of files** can be migrated. -/
theorem Progress.page_succeeds {start : ℤ} (h : Progress db versions start s done) (hfits : Fits db versions start)
    {files : List LegacyFile} (hfiles : ∀ f ∈ files, f ∈ db.files.rows) (hdistinct : (files.map LegacyFile.id).Nodup) :
    ∃ s' more, backfillPage versions db.properties s files = .ok s' ∧ Progress db versions start s' (done ++ more) := by
  have hskipped : ∀ f ∈ files, f.id ∉ loadBackfilledFileIds s.ledger (files.map LegacyFile.id) →
      ∀ d ∈ done, d.1.id ≠ f.id := by
    intro f hf hnot d hd heq
    exact hnot ((mem_loadBackfilledFileIds h.migrated).mpr ⟨mem_map_of_mem hf, d, hd, heq⟩)
  unfold backfillPage
  generalize loadBackfilledFileIds s.ledger (files.map LegacyFile.id) = completed at hskipped
  induction files generalizing s done with
  | nil =>
    refine ⟨s, [], rfl, ?_⟩
    rw [append_nil]
    exact h
  | cons f files ih =>
    obtain ⟨hnotin, hdistinct⟩ := nodup_cons.mp hdistinct
    have hrest : ∀ x ∈ files, x ∈ db.files.rows := fun x hx => hfiles x (mem_cons_of_mem _ hx)
    by_cases hin : f.id ∈ completed
    · obtain ⟨s', more, hok, hmore⟩ := ih h hrest hdistinct fun x hx => hskipped x (mem_cons_of_mem _ hx)
      refine ⟨s', more, ?_, hmore⟩
      rw [foldlM_cons]
      refine bind_ok_iff.mpr ⟨s, ?_, hok⟩
      rw [if_pos hin]
    · obtain ⟨s1, hfile, hfirst⟩ := h.file_succeeds hfits (hfiles f mem_cons_self) (hskipped f mem_cons_self hin)
      obtain ⟨s', more, hok, hmore⟩ := ih hfirst hrest hdistinct fun x hx hnot d hd heq => by
        rcases mem_append.mp hd with hd | hd
        · exact hskipped x (mem_cons_of_mem _ hx) hnot d hd heq
        · rw [mem_singleton.mp hd] at heq
          exact hnotin (mem_map.mpr ⟨x, hx, heq.symm⟩)
      refine ⟨s', (f, s.nextRevisionId) :: more, ?_, ?_⟩
      · rw [foldlM_cons]
        refine bind_ok_iff.mpr ⟨s1, ?_, hok⟩
        rw [if_neg hin]
        exact hfile
      · rw [append_assoc] at hmore
        exact hmore

/-- The first id that is given out. -/
def firstRevisionId (versions : Table LegacyRevision.id) : ℤ := max (maxId (versions.rows.map LegacyRevision.id)) 0 + 1

/-- **An attempt on a legacy database that is not cut off** runs to its end, if ids and sequences fit. -/
theorem up_ends (hlegacy : Legacy db versions) (hfits : Fits db versions (firstRevisionId versions)) {pages : ℕ}
    (hpages : db.files.rows.length < pages) : ∃ x, up db pages = (x, .ok true) := by
  have hids := hfits.ids
  have hfind : findNextRevisionId versions .empty = .ok (firstRevisionId versions) := by
    have hstart : firstRevisionId versions ≤ i64Max := by omega
    exact checkedSucc_of_le _ hstart
  let I : Option ℤ → Backfill → Prop := fun _ s => ∃ done, Progress db versions (firstRevisionId versions) s done
  have hstart : I none { ledger := .empty, nextRevisionId := firstRevisionId versions } := by
    refine ⟨[], .empty db versions, ⟨fun v hv => ?_, fun d hd => ?_⟩, ?_⟩
    · exact (findNextRevisionId_ok hfind).1 v hv
    · cases hd
    · exact (Int.add_zero _).symm
  obtain ⟨s, ended, hscan⟩ : ∃ s ended, Keyset.scan LegacyFile.id fileBackfillBatchSize db.files.rows
      (backfillPage versions db.properties) pages none
      { ledger := .empty, nextRevisionId := firstRevisionId versions } = (s, .ok ended) :=
    Keyset.scan_succeeds (I := I) (fun after s y hI _ => by
      obtain ⟨done, hprogress⟩ := hI
      obtain ⟨s', more, hok, hmore⟩ := hprogress.page_succeeds hfits
        (fun f hf => (Keyset.mem_of_mem_page hf).1) (Keyset.nodup_page db.files.unique)
      exact ⟨s', hok, _, hmore⟩) hstart
  have hlength : (Keyset.behind LegacyFile.id none db.files.rows).length < pages := by
    refine lt_of_le_of_lt ?_ hpages
    unfold Keyset.behind
    rw [length_insertionSort]
    exact length_filter_le _ _
  have hback : backfillLedger versions db.properties db.files .empty pages = (s.ledger, .ok ended) := by
    unfold backfillLedger
    rw [hfind]
    dsimp only
    rw [hscan]
  cases ended with
  | false => exact (Keyset.scan_ends db.files.unique hlength hscan).elim
  | true =>
    refine ⟨{ db with fileVersions := none, ledger := some s.ledger }, ?_⟩
    unfold up
    rw [hlegacy.stored, hlegacy.ledger]
    dsimp only
    rw [show (none : Option Ledger).getD .empty = .empty from rfl, hback]

end Backfill

end AsterDrive.RevisionLedger
