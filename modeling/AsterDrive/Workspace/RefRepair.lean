import AsterDrive.Lib.Census
import AsterDrive.Lib.Keyset
import AsterDrive.Lib.Lts
import AsterDrive.Workspace.Runs

/-!
# RefRepair — the two repairs of reference counts

`fix_blob_ref_counts_all` (`doctor --deep --fix`) and `run_ref_count_reconcile` (the maintenance task) walk over the
blobs page by page and count the references of a page. The task then takes the blobs that look wrong one by one,
locks the row, counts again, and leaves a row alone that is claimed for cleanup. The offline repair writes the counts
of the page, whatever has become of the rows since: it takes a claim away (`repairs_differ`), and it
overwrites a count that has changed after the page was counted (`stale_count_written`).
-/

namespace AsterDrive.Db

open List Option Function SerialTable

/-- `fix_blob_ref_counts_all` with its `policy_id`, or the reconcile pass of the task over all blobs. -/
inductive RepairMode
  | offline (policyId : Option ℕ)
  | online
  deriving DecidableEq

/-- Where the walk is: before the scope of the pass is known, about to read a page, about to count its files, about to
count its revisions, or about to repair it. -/
inductive RepairPhase
  | scoping
  | paging
  | countingFiles
  | countingRevisions (fileRefs : ℕ → ℤ)
  | repairing (actual : ℕ → ℤ)
  | done
  | failed

/-- A repair that runs: the blobs of the page that are still to do, and its cursor. -/
structure Repair where
  mode : RepairMode
  maxBlobId : Option ℕ
  lastBlobId : Option ℕ
  blobs : List FileBlob
  phase : RepairPhase

open Repair

def Repair.start (mode : RepairMode) : Repair :=
  { mode, maxBlobId := none, lastBlobId := none, blobs := [], phase := .scoping }

/-- `INTEGRITY_BATCH_SIZE` and `BLOB_MAINTENANCE_BATCH_SIZE`. -/
def repairBatchSize : ℕ := 1000

/-- The filter of a page. -/
def Repair.selects (r : Repair) (b : FileBlob) : Bool :=
  match r.mode with
  | .offline policyId => ∀ p ∈ policyId, b.policyId = p
  | .online => ∀ m ∈ r.maxBlobId, b.id ≤ m

def Repair.page (r : Repair) (db : Db) : List FileBlob :=
  Keyset.page FileBlob.id r.lastBlobId repairBatchSize (db.blobs.rows.filter r.selects)

/-- `i32::try_from` of a count. -/
def fitsI32 (n : ℤ) : Bool := n ≤ i32Max

/-- `checked_add` of two counts. -/
def fitsI64 (n : ℤ) : Bool := n ≤ i64Max

/-- `count_blob_refs_from_files_for_blobs`. -/
def countBlobRefsFromFiles (db : Db) (blobId : ℕ) : ℤ := (db.files.rows.countP fun f => f.blobId = blobId : ℕ)

/-- What becomes of the first blob of the page that is still to do: `none` is an error. -/
def repairBlob (mode : RepairMode) (actual : ℕ → ℤ) (b : FileBlob) (db : Db) : Option Db :=
  match mode with
  | .offline _ =>
    if b.refCount = actual b.id then some db
    else if fitsI32 (actual b.id) ∧ (db.blobs.get b.id).isSome then
      some { db with blobs := setBlobRefCount db.blobs b.id (actual b.id) }
    else none
  | .online =>
    if b.refCount = actual b.id ∨ b.refCount = blobCleanupClaimedRefCount then some db
    -- `reconcile_single_blob_ref_count`, which counts only if the row is not claimed
    else if ∃ row ∈ db.blobs.get b.id, row.refCount ≠ blobCleanupClaimedRefCount ∧
        ¬ fitsI32 (currentBlobRefCount db b.id) then none
    else (reconcileBlob b.id false db).toOption.map Prod.snd

/-- The next statement of a repair; the transaction on one blob is one statement. -/
def stepRepair (r : Repair) (db : Db) : Option (Repair × Db) :=
  match r.phase with
  | .scoping =>
    match r.mode with
    | .offline _ => some ({ r with phase := .paging }, db)
    | .online => some ({ r with maxBlobId := (db.blobs.rows.map FileBlob.id).max?, phase := .paging }, db)
  | .paging =>
    match r.page db with
    | [] => some ({ r with phase := .done }, db)
    | b :: rest =>
      some ({ r with
        lastBlobId := ((b :: rest).getLast?).map FileBlob.id
        blobs := b :: rest
        phase := .countingFiles }, db)
  | .countingFiles => some ({ r with phase := .countingRevisions (countBlobRefsFromFiles db) }, db)
  | .countingRevisions fileRefs =>
    let actual := fun id => fileRefs id + (countNonCurrentBlobRefs db id : ℤ)
    -- the task converts the counts of the whole page, the offline repair only those that it writes
    if ∀ b ∈ r.blobs, fitsI64 (actual b.id) ∧ (r.mode = .online → fitsI32 (actual b.id)) then
      some ({ r with phase := .repairing actual }, db)
    else some ({ r with phase := .failed }, db)
  | .repairing actual =>
    match r.blobs with
    | [] => some ({ r with phase := .paging }, db)
    | b :: rest =>
      match repairBlob r.mode actual b db with
      | some db' => some ({ r with blobs := rest }, db')
      | none => some ({ r with phase := .failed }, db)
  | .done => none
  | .failed => none

/-! ### A repair on its own -/

/-- A repair, and nothing else that touches the database. -/
def repairAlone : Lts (Repair × Db) Unit := ⟨fun x _ => stepRepair x.1 x.2⟩

/-- The repair gets to its end, and leaves `db'`. -/
def Repairs (mode : RepairMode) (db db' : Db) : Prop :=
  ∃ r, Lts.Reach repairAlone Lts.free (.start mode, db) (r, db') ∧ r.phase = .done

/-- Both databases have the same reference counts. -/
def SameCounts (db db' : Db) : Prop :=
  ∀ id, (db.blobs.get id).map FileBlob.refCount = (db'.blobs.get id).map FileBlob.refCount

/-- The rows that a repair sets. -/
def RepairMode.sets (mode : RepairMode) (b : FileBlob) : Bool :=
  match mode with
  | .offline policyId => ∀ p ∈ policyId, b.policyId = p
  | .online => b.refCount ≠ blobCleanupClaimedRefCount

/-- Behind the cursor, and not in the page any more. -/
def Repair.treated (r : Repair) (id : ℕ) : Bool := (∃ l ∈ r.lastBlobId, id ≤ l) ∧ ∀ b ∈ r.blobs, b.id ≠ id

/-- The row as the repair leaves it. -/
def repairedRow (mode : RepairMode) (p : ℕ → Bool) (db : Db) (b : FileBlob) : FileBlob :=
  if p b.id && mode.sets b then { b with refCount := currentBlobRefCount db b.id } else b

/-- The database with the rows repaired that meet `p`. -/
def repaired (mode : RepairMode) (p : ℕ → Bool) (db : Db) : Db :=
  { db with blobs := updateRefCounts db.blobs (fun b => p b.id && mode.sets b) fun b => currentBlobRefCount db b.id }

section

variable {mode : RepairMode} {p q : ℕ → Bool} {db db' : Db} {b : FileBlob} {k : ℕ} {r r' : Repair}

theorem mem_repaired : b ∈ (repaired mode p db).blobs.rows ↔ ∃ x ∈ db.blobs.rows, repairedRow mode p db x = b :=
  mem_updateRows

theorem get_repaired : (repaired mode p db).blobs.get k = (db.blobs.get k).map (repairedRow mode p db) :=
  get_updateRows db.blobs _ _ _ k

theorem repaired_congr (h : ∀ b ∈ db.blobs.rows, repairedRow mode p db b = repairedRow mode q db b) :
    repaired mode p db = repaired mode q db := by
  have hrows : (repaired mode p db).blobs.rows = (repaired mode q db).blobs.rows := map_congr_left h
  have hblobs : (repaired mode p db).blobs = (repaired mode q db).blobs := eq_of_rows hrows rfl
  show { db with blobs := (repaired mode p db).blobs } = { db with blobs := (repaired mode q db).blobs }
  rw [hblobs]

theorem repaired_none : repaired mode (fun _ => false) db = db := by
  have hrows : (repaired mode (fun _ => false) db).blobs.rows = db.blobs.rows := List.map_id _
  have hblobs : (repaired mode (fun _ => false) db).blobs = db.blobs := eq_of_rows hrows rfl
  show { db with blobs := (repaired mode (fun _ => false) db).blobs } = db
  rw [hblobs]

theorem set_repaired (hb : b ∈ db.blobs.rows) (hsets : mode.sets b) : { repaired mode p db with
      blobs := setBlobRefCount (repaired mode p db).blobs b.id (currentBlobRefCount db b.id) } =
      repaired mode (fun id => p id || id = b.id) db := by
  have hrows : (setBlobRefCount (repaired mode p db).blobs b.id (currentBlobRefCount db b.id)).rows =
      (repaired mode (fun id => p id || id = b.id) db).blobs.rows := by
    show (db.blobs.rows.map (repairedRow mode p db)).map _ = db.blobs.rows.map _
    rw [List.map_map]
    refine map_congr_left fun x hx => ?_
    simp only [comp_apply, repairedRow, decide_eq_true_eq]
    by_cases hid : x.id = b.id
    · obtain rfl := Table.eq_of_key hx hb hid
      by_cases hp : p x.id <;> simp [hsets, hp]
    · by_cases hp : (p x.id && mode.sets x) = true <;> simp [hid, hp]
  have hblobs := eq_of_rows (t := setBlobRefCount (repaired mode p db).blobs b.id
    (currentBlobRefCount db b.id)) hrows rfl
  rw [hblobs]
  rfl

theorem skip_repaired (hb : b ∈ db.blobs.rows) (h : b.refCount = currentBlobRefCount db b.id ∨ mode.sets b = false) :
    repaired mode p db = repaired mode (fun id => p id || id = b.id) db := by
  refine repaired_congr fun x hx => ?_
  by_cases hid : x.id = b.id
  · obtain rfl := Table.eq_of_key hx hb hid
    rcases h with heq | hnot
    · unfold repairedRow
      rw [← heq]
      simp
    · simp [repairedRow, hnot]
  · simp [repairedRow, hid]

theorem repairBlob_repaired (hb : b ∈ db.blobs.rows) (hp : p b.id = false) (hoffline : mode ≠ .online → mode.sets b)
    (h : repairBlob mode (currentBlobRefCount db) b (repaired mode p db) = some db') :
    db' = repaired mode (fun id => p id || id = b.id) db := by
  have hget : (repaired mode p db).blobs.get b.id = some b := by
    rw [get_repaired, Table.get_of_mem hb, map_some]
    simp [repairedRow, hp]
  have hcount : currentBlobRefCount (repaired mode p db) b.id = currentBlobRefCount db b.id := rfl
  cases mode with
  | offline policyId =>
    have hsets := hoffline (by simp)
    simp only [repairBlob] at h
    split_ifs at h with heq hwrite
    · rw [← some.inj h]
      exact skip_repaired hb (.inl heq)
    · rw [← some.inj h]
      exact set_repaired hb hsets
  | online =>
    simp only [repairBlob] at h
    split_ifs at h with hskip hover
    · rw [← some.inj h]
      refine skip_repaired hb (hskip.imp id fun hclaimed => ?_)
      simp [RepairMode.sets, hclaimed]
    · obtain ⟨hne, hunclaimed⟩ := not_or.mp hskip
      unfold reconcileBlob at h
      simp only [hget, hcount, hunclaimed, hne, false_and, if_false, Except.toOption, map_some, some.injEq] at h
      rw [← h]
      exact set_repaired hb (by simp [RepairMode.sets, hunclaimed])

/-- What the walk knows in each phase. -/
def Repair.Phased (db : Db) (r : Repair) : Prop :=
  match r.phase with
  | .scoping => r.lastBlobId = none ∧ r.blobs = []
  | .paging => r.blobs = []
  | .countingFiles => r.blobs ≠ []
  | .countingRevisions fileRefs => r.blobs ≠ [] ∧ fileRefs = countBlobRefsFromFiles db
  | .repairing actual =>
    actual = currentBlobRefCount db ∧ (r.mode = .online → ∀ b ∈ r.blobs, fitsI32 (currentBlobRefCount db b.id))
  | .done => ∀ b ∈ db.blobs.rows, r.selects b → r.treated b.id
  | .failed => True

/-- A repair that began with `db`: the rows that it has treated are repaired, and no others. -/
structure Walking (db : Db) (x : Repair × Db) : Prop where
  written : x.2 = repaired x.1.mode x.1.treated db
  todo : ∀ b ∈ x.1.blobs, b ∈ db.blobs.rows ∧ x.1.selects b
  distinct : (x.1.blobs.map FileBlob.id).Nodup
  within : ∀ b ∈ x.1.blobs, ∃ l ∈ x.1.lastBlobId, b.id ≤ l
  scope : x.1.phase ≠ .scoping → ∀ b ∈ db.blobs.rows, x.1.selects b = false → x.1.mode ≠ .online ∧ x.1.mode.sets b = false
  fits : x.1.mode = .online → ∀ b ∈ db.blobs.rows, x.1.treated b.id → fitsI32 (currentBlobRefCount db b.id)
  phased : x.1.Phased db

theorem treated_of_nil (h : r.blobs = []) : r.treated k = decide (∃ l ∈ r.lastBlobId, k ≤ l) := by
  unfold treated
  simp [h]

theorem Walking.start : Walking db (.start mode, db) where
  written := by
    refine (repaired_none).symm.trans (repaired_congr fun b _ => ?_)
    simp [repairedRow, Repair.treated, Repair.start]
  todo := by simp [Repair.start]
  distinct := nodup_nil
  within := by simp [Repair.start]
  scope := fun h => absurd rfl h
  fits := by simp [Repair.start, Repair.treated]
  phased := ⟨rfl, rfl⟩

theorem Walking.turn {phase : RepairPhase} (h : Walking db (r, db')) (hscoped : r.phase ≠ .scoping)
    (hphased : Repair.Phased db { r with phase }) : Walking db ({ r with phase }, db') :=
  ⟨h.written, h.todo, h.distinct, h.within, fun _ => h.scope hscoped, h.fits, hphased⟩

theorem Walking.mem_page (h : Walking db (r, db')) (hblobs : r.blobs = []) (hb : b ∈ r.page db') :
    b ∈ db.blobs.rows ∧ r.selects b ∧ r.treated b.id = false := by
  obtain ⟨hfilter, hbehind⟩ := Keyset.mem_of_mem_page hb
  obtain ⟨hrow, hselects⟩ := mem_filter.mp hfilter
  have hdb : db' = repaired r.mode r.treated db := h.written
  have huntreated : r.treated b.id = false := by
    rw [treated_of_nil hblobs, decide_eq_false_iff_not]
    rintro ⟨l, hl, hle⟩
    have hlt : l < b.id := of_decide_eq_true hbehind l hl
    omega
  rw [hdb] at hrow
  obtain ⟨x, hx, hxb⟩ := (mem_repaired).mp hrow
  have hid : x.id = b.id := by
    rw [← hxb]
    unfold repairedRow
    split_ifs <;> rfl
  have hsame : repairedRow r.mode r.treated db x = x := by
    simp [repairedRow, hid, huntreated]
  rw [hsame] at hxb
  rw [← hxb] at hselects huntreated ⊢
  exact ⟨hx, hselects, huntreated⟩

theorem Walking.untreated (h : Walking db (r, db')) (hblobs : r.blobs = []) (hb : b ∈ db.blobs.rows)
    (huntreated : r.treated b.id = false) :
    b ∈ db'.blobs.rows ∧ Keyset.isBehind FileBlob.id r.lastBlobId b := by
  have hdb : db' = repaired r.mode r.treated db := h.written
  constructor
  · rw [hdb]
    exact (mem_repaired).mpr ⟨b, hb, by simp [repairedRow, huntreated]⟩
  · rw [treated_of_nil hblobs, decide_eq_false_iff_not] at huntreated
    refine decide_eq_true fun l hl => ?_
    by_contra hle
    exact huntreated ⟨l, hl, Nat.not_lt.mp hle⟩

theorem Walking.page_nil (h : Walking db (r, db')) (hscoped : r.phase ≠ .scoping) (hblobs : r.blobs = [])
    (hpage : r.page db' = []) : Walking db ({ r with phase := .done }, db') := by
  refine h.turn hscoped fun b hb hselects => ?_
  show r.treated b.id = true
  by_contra huntreated
  obtain ⟨hrow, hbehind⟩ := h.untreated hblobs hb (Bool.eq_false_iff.mpr huntreated)
  have hfilter : b ∈ db'.blobs.rows.filter r.selects := mem_filter.mpr ⟨hrow, hselects⟩
  have hnone := (Keyset.page_eq_nil (by decide)).mp hpage b hfilter
  rw [hbehind] at hnone
  cases hnone

theorem Walking.page_cons {last : ℕ} (h : Walking db (r, db')) (hscoped : r.phase ≠ .scoping) (hblobs : r.blobs = [])
    (hlast : (r.page db').getLast?.map FileBlob.id = some last) :
    Walking db ({ r with lastBlobId := some last, blobs := r.page db', phase := .countingFiles }, db') ∧
      ∀ k, r.treated k → treated { r with lastBlobId := some last, blobs := r.page db' } k := by
  obtain ⟨y, hy, rfl⟩ := map_eq_some_iff.mp hlast
  have hymem : y ∈ r.page db' := mem_of_getLast? hy
  have hwithin : ∀ b ∈ r.page db', b.id ≤ y.id := fun b hb => Keyset.le_last hy hb
  -- treated rows lie before the page
  have hbefore : ∀ k, r.treated k → treated { r with lastBlobId := some y.id, blobs := r.page db' } k := by
    intro k hk
    have hk' := hk
    rw [treated_of_nil hblobs, decide_eq_true_eq] at hk
    obtain ⟨l, hl, hle⟩ := hk
    refine decide_eq_true ⟨⟨y.id, rfl, ?_⟩, fun b hb hid => ?_⟩
    · have hlt : l < y.id := of_decide_eq_true (Keyset.mem_of_mem_page hymem).2 l hl
      omega
    · have huntreated := (h.mem_page hblobs hb).2.2
      rw [hid, hk'] at huntreated
      cases huntreated
  -- what the page skips is not selected
  have hskipped : ∀ b ∈ db.blobs.rows, r.treated b.id = false →
      treated { r with lastBlobId := some y.id, blobs := r.page db' } b.id → r.selects b = false := by
    intro b hb huntreated hnew
    obtain ⟨⟨l, hl, hle⟩, hout⟩ := of_decide_eq_true hnew
    cases hl
    rw [Bool.eq_false_iff]
    intro hselects
    obtain ⟨hrow, hbehind⟩ := h.untreated hblobs hb huntreated
    have hdistinct : ∀ x ∈ db'.blobs.rows.filter r.selects, ∀ z ∈ db'.blobs.rows.filter r.selects,
        x.id = z.id → x = z :=
      fun x hx z hz hid => Table.eq_of_key (mem_filter.mp hx).1 (mem_filter.mp hz).1 hid
    have hpage : b ∈ r.page db' := Keyset.mem_page_of_le_last hdistinct hy (mem_filter.mpr ⟨hrow, hselects⟩) hbehind hle
    exact hout b hpage rfl
  refine ⟨⟨?_, ?_, ?_, ?_, fun _ => h.scope hscoped, ?_, ?_⟩, hbefore⟩
  · refine h.written.trans (repaired_congr fun b hb => ?_)
    unfold repairedRow
    cases hold : r.treated b.id with
    | true =>
      have hnew := hbefore b.id hold
      have : treated { r with lastBlobId := some y.id, blobs := r.page db', phase := .countingFiles } b.id = true :=
        hnew
      rw [this]
    | false =>
      by_cases hnew : treated { r with lastBlobId := some y.id, blobs := r.page db' } b.id
      · have hsets := (h.scope hscoped b hb (hskipped b hb hold hnew)).2
        rw [show r.mode.sets b = false from hsets]
        simp
      · have : treated { r with lastBlobId := some y.id, blobs := r.page db', phase := .countingFiles } b.id =
            false := Bool.eq_false_iff.mpr hnew
        rw [this]
  · intro b hb
    obtain ⟨hrow, hselects, -⟩ := h.mem_page hblobs hb
    exact ⟨hrow, hselects⟩
  · exact Keyset.nodup_page (db'.blobs.unique.sublist (List.filter_sublist.map FileBlob.id))
  · exact fun b hb => ⟨y.id, rfl, hwithin b hb⟩
  · intro honline b hb hnew
    cases hold : r.treated b.id with
    | true => exact h.fits honline b hb hold
    | false => exact absurd honline (h.scope hscoped b hb (hskipped b hb hold hnew)).1
  · exact ne_nil_of_mem hymem

theorem treated_rest {rest : List FileBlob} (h : Walking db (r, db')) (hblobs : r.blobs = b :: rest) :
    treated { r with blobs := rest } = fun id => r.treated id || id = b.id := by
  have hnotin : b.id ∉ rest.map FileBlob.id := by
    have hdistinct := h.distinct
    rw [show r.blobs = b :: rest from hblobs] at hdistinct
    exact (nodup_cons.mp hdistinct).1
  obtain ⟨l, hl, hle⟩ := h.within b (by rw [show r.blobs = b :: rest from hblobs]; exact mem_cons_self)
  ext id
  unfold treated
  rw [hblobs, Bool.eq_iff_iff]
  simp only [decide_eq_true_eq, Bool.or_eq_true, mem_cons, forall_eq_or_imp]
  constructor
  · rintro ⟨hbefore, hrest⟩
    by_cases hid : id = b.id
    · exact .inr hid
    · exact .inl ⟨hbefore, fun heq => hid heq.symm, hrest⟩
  · rintro (⟨hbefore, -, hrest⟩ | rfl)
    · exact ⟨hbefore, hrest⟩
    · exact ⟨⟨l, hl, hle⟩, fun x hx hid => hnotin (List.mem_map.mpr ⟨x, hx, hid⟩)⟩

theorem untreated_head {rest : List FileBlob} (hblobs : r.blobs = b :: rest) : r.treated b.id = false := by
  refine decide_eq_false fun h => ?_
  exact h.2 b (by rw [hblobs]; exact mem_cons_self) rfl

theorem sets_of_selects (hmode : r.mode ≠ .online) (h : r.selects b) : r.mode.sets b := by
  unfold selects at h
  cases hm : r.mode with
  | offline policyId =>
    rw [hm] at h
    exact h
  | online => exact absurd hm hmode

theorem Walking.blob {rest : List FileBlob} {actual : ℕ → ℤ} {db'' : Db} (h : Walking db (r, db'))
    (hphase : r.phase = .repairing actual) (hblobs : r.blobs = b :: rest)
    (hrepair : repairBlob r.mode actual b db' = some db'') : Walking db ({ r with blobs := rest }, db'') := by
  have hphased := h.phased
  simp only [Repair.Phased, hphase] at hphased
  obtain ⟨rfl, hfits⟩ := hphased
  have hhead : b ∈ r.blobs := by
    rw [hblobs]
    exact mem_cons_self
  have htail : ∀ x ∈ rest, x ∈ r.blobs := fun x hx => by
    rw [hblobs]
    exact mem_cons_of_mem _ hx
  obtain ⟨hrow, hselects⟩ := h.todo b hhead
  have htreated := treated_rest h hblobs
  have hdb : db' = repaired r.mode r.treated db := h.written
  rw [hdb] at hrepair
  refine ⟨?_, fun x hx => h.todo x (htail x hx), ?_, fun x hx => h.within x (htail x hx), h.scope, ?_, ?_⟩
  · show db'' = repaired r.mode (treated { r with blobs := rest }) db
    rw [htreated]
    exact repairBlob_repaired hrow (untreated_head hblobs) (fun hmode => sets_of_selects hmode hselects) hrepair
  · have hdistinct := h.distinct
    rw [show r.blobs = b :: rest from hblobs] at hdistinct
    exact (nodup_cons.mp hdistinct).2
  · intro honline x hx hnew
    rw [show treated { r with blobs := rest } = _ from htreated, Bool.or_eq_true, decide_eq_true_eq] at hnew
    rcases hnew with hold | hid
    · exact h.fits honline x hx hold
    · obtain rfl := Table.eq_of_key hx hrow hid
      exact hfits honline x hhead
  · show Repair.Phased db { r with blobs := rest }
    rw [show phase { r with blobs := rest } = .repairing (currentBlobRefCount db) from hphase]
    exact ⟨rfl, fun honline x hx => hfits honline x (htail x hx)⟩

theorem selects_max (hmode : r.mode = .online) (hmax : r.maxBlobId = (db.blobs.rows.map FileBlob.id).max?)
    (hb : b ∈ db.blobs.rows) : r.selects b := by
  unfold selects
  rw [hmode]
  refine decide_eq_true fun m hm => ?_
  rw [hmax] at hm
  exact (max?_eq_some_iff.mp hm).2 b.id (List.mem_map.mpr ⟨b, hb, rfl⟩)

theorem Walking.scoped {phased : Repair} (h : Walking db (r, db')) (hphase : r.phase = .scoping)
    (hmode : phased.mode = r.mode) (hlast : phased.lastBlobId = r.lastBlobId) (hblobs : phased.blobs = r.blobs)
    (hpaging : phased.phase = .paging)
    (hscope : ∀ b ∈ db.blobs.rows, phased.selects b = false → phased.mode ≠ .online ∧ phased.mode.sets b = false) :
    Walking db (phased, db') := by
  have hphased := h.phased
  simp only [Repair.Phased, hphase] at hphased
  have hnil : phased.blobs = [] := hblobs.trans hphased.2
  have hnothing : ∀ k, phased.treated k = false := by
    intro k
    rw [treated_of_nil hnil, hlast, hphased.1]
    simp
  have hbefore : r.treated = phased.treated := by
    ext k
    rw [hnothing k, treated_of_nil hphased.2, hphased.1]
    simp
  refine ⟨?_, by simp [hnil], by simp [hnil], by simp [hnil], fun _ => hscope, ?_, ?_⟩
  · show db' = repaired phased.mode phased.treated db
    rw [hmode, ← hbefore]
    exact h.written
  · intro _ b _ htreated
    rw [show phased.treated b.id = false from hnothing b.id] at htreated
    cases htreated
  · show phased.Phased db
    unfold Repair.Phased
    rw [hpaging]
    exact hnil

theorem Walking.step (h : Walking db (r, db')) {x' : Repair × Db} (hstep : stepRepair r db' = some x') : Walking db x' := by
  have hphased := h.phased
  have hdb : db' = repaired r.mode r.treated db := h.written
  cases hphase : r.phase with (simp only [Repair.Phased, hphase] at hphased; simp only [stepRepair, hphase] at hstep)
  | scoping =>
    split at hstep
    next policyId hmode =>
      cases hstep
      refine h.scoped hphase rfl rfl rfl rfl fun b _ hselects => ?_
      simp only [hmode] at hselects ⊢
      exact ⟨by simp, hselects⟩
    next hmode =>
      cases hstep
      refine h.scoped hphase rfl rfl rfl rfl fun b hb hselects => ?_
      have hids : db'.blobs.rows.map FileBlob.id = db.blobs.rows.map FileBlob.id := by
        rw [hdb]
        show (db.blobs.rows.map (repairedRow r.mode r.treated db)).map FileBlob.id = _
        rw [List.map_map]
        refine map_congr_left fun x _ => ?_
        simp only [comp_apply, repairedRow]
        split_ifs <;> rfl
      rw [hids] at hselects
      have hall : selects { r with maxBlobId := (db.blobs.rows.map FileBlob.id).max?, phase := .paging } b :=
        selects_max hmode rfl hb
      rw [hall] at hselects
      cases hselects
  | paging =>
    have hscoped : r.phase ≠ .scoping := by simp [hphase]
    split at hstep
    next hpage =>
      cases hstep
      exact h.page_nil hscoped hphased hpage
    next b rest hpage =>
      cases hstep
      have hlast : (r.page db').getLast?.map FileBlob.id = some ((b :: rest).getLast (cons_ne_nil b rest)).id := by
        rw [hpage, getLast?_eq_some_getLast (cons_ne_nil b rest)]
        rfl
      have hcons := (h.page_cons hscoped hphased hlast).1
      rw [← hlast, hpage] at hcons
      exact hcons
  | countingFiles =>
    cases hstep
    refine h.turn (by simp [hphase]) ⟨hphased, ?_⟩
    rw [hdb]
    rfl
  | countingRevisions fileRefs =>
    obtain ⟨-, rfl⟩ := hphased
    split_ifs at hstep with hconverts
    · cases hstep
      have hcount : (fun id => countBlobRefsFromFiles db id + (countNonCurrentBlobRefs db' id : ℤ)) =
          currentBlobRefCount db := by
        rw [hdb]
        rfl
      refine h.turn (by simp [hphase]) ⟨hcount, fun honline b hb => ?_⟩
      have hfits := (hconverts b hb).2 honline
      rwa [show _ + _ = currentBlobRefCount db b.id from congrFun hcount b.id] at hfits
    · cases hstep
      exact h.turn (by simp [hphase]) trivial
  | repairing actual =>
    split at hstep
    next hblobs =>
      cases hstep
      exact h.turn (by simp [hphase]) hblobs
    next b rest hblobs =>
      split at hstep
      next db'' hrepair =>
        cases hstep
        have hblob := h.blob hphase hblobs hrepair
        rwa [hphase] at hblob
      next =>
        cases hstep
        exact h.turn (by simp [hphase]) trivial
  | done | failed =>
    cases hstep

theorem stepRepair_mode {x' : Repair × Db} (hstep : stepRepair r db = some x') : x'.1.mode = r.mode := by
  cases hphase : r.phase with simp only [stepRepair, hphase] at hstep
  | scoping | paging =>
    split at hstep <;> (cases hstep; rfl)
  | countingRevisions fileRefs =>
    split_ifs at hstep <;> (cases hstep; rfl)
  | repairing actual =>
    split at hstep
    next =>
      cases hstep
      rfl
    next => split at hstep <;> (cases hstep; rfl)
  | countingFiles =>
    cases hstep
    rfl
  | done | failed =>
    cases hstep

/-- **A repair that ends has repaired every row that it sets**, and the task has converted every count. -/
theorem repairs_spec (h : Repairs mode db db') : db' = repaired mode (fun _ => true) db ∧
      (mode = .online → ∀ b ∈ db.blobs.rows, fitsI32 (currentBlobRefCount db b.id)) := by
  obtain ⟨r, hreach, hdone⟩ := h
  have hwalk : Walking db (r, db') ∧ r.mode = mode :=
    hreach.induct (I := fun x => Walking db x ∧ x.1.mode = mode) ⟨.start, rfl⟩ fun {x x' _} hx _ hstep =>
      ⟨hx.1.step hstep, (stepRepair_mode hstep).trans hx.2⟩
  obtain ⟨hwalk, rfl⟩ := hwalk
  have hphased := hwalk.phased
  simp only [Repair.Phased, hdone] at hphased
  have hscoped : r.phase ≠ .scoping := by simp [hdone]
  have hdb : db' = repaired r.mode r.treated db := hwalk.written
  constructor
  · refine hdb.trans (repaired_congr fun b hb => ?_)
    unfold repairedRow
    cases hselects : r.selects b with
    | true => rw [hphased b hb hselects]
    | false =>
      rw [show r.mode.sets b = false from (hwalk.scope hscoped b hb hselects).2]
      simp
  · intro honline b hb
    have hselects : r.selects b := by
      by_contra hnot
      exact (hwalk.scope hscoped b hb (Bool.eq_false_iff.mpr hnot)).1 honline
    exact hwalk.fits honline b hb (hphased b hb hselects)

/-! ### A repair comes to its end -/

/-- How many statements a phase is away from the next blob. -/
def Repair.rank (r : Repair) : ℕ :=
  match r.phase with
  | .scoping => 5
  | .repairing _ => if r.blobs = [] then 4 else 0
  | .paging => 3
  | .countingFiles => 2
  | .countingRevisions _ => 1
  | .done => 0
  | .failed => 0

/-- The rows that are still to come, and the statements before the next one. -/
def Repair.ahead (db : Db) (r : Repair) : ℕ := 5 * (db.blobs.rows.countP fun b => !r.treated b.id) + r.rank

theorem fitsI64_of_i32 {n : ℤ} (h : fitsI32 n) : fitsI64 n := by
  have hle : n ≤ i32Max := of_decide_eq_true h
  refine decide_eq_true ?_
  unfold i32Max at hle
  unfold i64Max
  omega

theorem repairBlob_isSome (h : Walking db (r, db')) (hb : b ∈ r.blobs)
    (hfits : fitsI32 (currentBlobRefCount db b.id)) : (repairBlob r.mode (currentBlobRefCount db) b db').isSome := by
  have hdb : db' = repaired r.mode r.treated db := h.written
  have hrow : (db'.blobs.get b.id).isSome := by
    rw [hdb, get_repaired, Table.get_of_mem (h.todo b hb).1]
    rfl
  have hcount : currentBlobRefCount db' b.id = currentBlobRefCount db b.id := by
    rw [hdb]
    rfl
  cases hmode : r.mode with
  | offline policyId =>
    simp only [repairBlob]
    split_ifs with heq hwrite
    · rfl
    · rfl
    · exact absurd ⟨hfits, hrow⟩ hwrite
  | online =>
    simp only [repairBlob, hcount, hfits]
    unfold reconcileBlob
    split_ifs with hskip hover
    · rfl
    · obtain ⟨row, -, -, habsurd⟩ := hover
      exact absurd trivial habsurd
    · repeat' split
      all_goals rfl

theorem Walking.progress (h : Walking db (r, db')) (hfailed : r.phase ≠ .failed) (hdone : r.phase ≠ .done)
    (hfits : ∀ b ∈ db.blobs.rows, fitsI32 (currentBlobRefCount db b.id)) :
    ∃ r' db'', stepRepair r db' = some (r', db'') ∧ r'.phase ≠ .failed ∧ r'.ahead db < r.ahead db := by
  have hphased := h.phased
  cases hphase : r.phase with simp only [Repair.Phased, hphase] at hphased
  | scoping =>
    simp only [stepRepair, hphase]
    cases hmode : r.mode with
    | offline policyId | online =>
      refine ⟨_, _, rfl, by simp, ?_⟩
      simp only [ahead, rank, hphase, treated]
      omega
  | paging =>
    simp only [stepRepair, hphase]
    cases hpage : r.page db' with
    | nil =>
      refine ⟨_, _, rfl, by simp, ?_⟩
      simp only [ahead, rank, hphase, treated]
      omega
    | cons b rest =>
      refine ⟨_, _, rfl, by simp, ?_⟩
      have hlast : (r.page db').getLast?.map FileBlob.id = some ((b :: rest).getLast (cons_ne_nil b rest)).id := by
        rw [hpage, getLast?_eq_some_getLast (cons_ne_nil b rest)]
        rfl
      have hmore := (h.page_cons (by simp [hphase]) hphased hlast).2
      rw [← hlast, hpage] at hmore
      have hfewer : db.blobs.rows.countP (fun x => !treated
          { r with lastBlobId := (b :: rest).getLast?.map FileBlob.id, blobs := b :: rest } x.id) ≤
          db.blobs.rows.countP fun x => !r.treated x.id := by
        refine countP_mono_left fun x _ hx => ?_
        by_contra htreated
        rw [hmore x.id (by simpa using htreated)] at hx
        cases hx
      unfold ahead rank
      simp only [hphase]
      exact Nat.add_lt_add_of_le_of_lt (Nat.mul_le_mul_left 5 hfewer) (by decide)
  | countingFiles =>
    simp only [stepRepair, hphase]
    refine ⟨_, _, rfl, by simp, ?_⟩
    simp only [ahead, rank, hphase, treated]
    omega
  | countingRevisions fileRefs =>
    obtain ⟨hne, rfl⟩ := hphased
    have hdb : db' = repaired r.mode r.treated db := h.written
    have hconverts : ∀ b ∈ r.blobs, fitsI64 (countBlobRefsFromFiles db b.id + (countNonCurrentBlobRefs db' b.id : ℤ)) ∧
        (r.mode = .online → fitsI32 (countBlobRefsFromFiles db b.id + (countNonCurrentBlobRefs db' b.id : ℤ))) := by
      intro b hb
      have hfit := hfits b (h.todo b hb).1
      rw [hdb]
      exact ⟨fitsI64_of_i32 hfit, fun _ => hfit⟩
    simp only [stepRepair, hphase]
    rw [if_pos hconverts]
    refine ⟨_, _, rfl, by simp, ?_⟩
    simp only [ahead, rank, hphase, treated, hne, if_false]
    omega
  | repairing actual =>
    obtain ⟨rfl, -⟩ := hphased
    simp only [stepRepair, hphase]
    cases hblobs : r.blobs with
    | nil =>
      refine ⟨_, _, rfl, by simp, ?_⟩
      simp only [ahead, rank, hphase, treated, hblobs, if_true]
      omega
    | cons b rest =>
      have hhead : b ∈ r.blobs := by
        rw [hblobs]
        exact mem_cons_self
      obtain ⟨hrow, -⟩ := h.todo b hhead
      obtain ⟨db'', hrepair⟩ := isSome_iff_exists.mp (repairBlob_isSome h hhead (hfits b hrow))
      simp only [hrepair]
      refine ⟨_, _, rfl, by simp, ?_⟩
      have htreated := treated_rest h hblobs
      have hfewer : (db.blobs.rows.countP fun x => !treated { r with blobs := rest } x.id) +
          db.blobs.rows.countP (fun x => x.id = b.id) ≤ db.blobs.rows.countP fun x => !r.treated x.id := by
        refine Census.add_le_of_disjoint (fun x _ hx => ?_) (fun x _ hx => ?_) fun x _ hx => ?_
        · rw [htreated] at hx
          simp only [Bool.not_or, Bool.and_eq_true] at hx
          exact hx.1
        · rw [of_decide_eq_true hx, untreated_head hblobs]
          rfl
        · rw [htreated] at hx
          simp only [Bool.not_or, Bool.and_eq_true, Bool.not_eq_true'] at hx
          exact hx.2
      have hone : 0 < db.blobs.rows.countP fun x => x.id = b.id := countP_pos_iff.mpr ⟨b, hrow, by simp⟩
      have hrank : rank { r with blobs := rest } ≤ 4 := by
        unfold rank
        simp only [hphase]
        split_ifs <;> omega
      have hrank' : r.rank = 0 := by
        unfold rank
        simp [hphase, hblobs]
      rw [← hphase]
      show 5 * (db.blobs.rows.countP fun x => !treated { r with blobs := rest } x.id) +
        rank { r with blobs := rest } < 5 * (db.blobs.rows.countP fun x => !r.treated x.id) + r.rank
      omega
  | done => exact absurd hphase hdone
  | failed => exact absurd hphase hfailed

/-- **A repair ends**, if every count fits. -/
theorem repairs_of_fits (mode : RepairMode) (hfits : ∀ b ∈ db.blobs.rows, fitsI32 (currentBlobRefCount db b.id)) :
    ∃ db', Repairs mode db db' := by
  have hprogress : ∀ x : Repair × Db, Walking db x ∧ x.1.phase ≠ .failed → ¬ x.1.phase = .done →
      ∃ (a : Unit) (x' : Repair × Db), Lts.free x a ∧ repairAlone.step x a = some x' ∧
        (Walking db x' ∧ x'.1.phase ≠ .failed) ∧ x'.1.ahead db < x.1.ahead db := by
    rintro ⟨r, db'⟩ ⟨hwalk, hfailed⟩ hdone
    obtain ⟨r', db'', hstep, hfailed', hlt⟩ := hwalk.progress hfailed hdone hfits
    exact ⟨(), (r', db''), trivial, hstep, ⟨hwalk.step hstep, hfailed'⟩, hlt⟩
  have hstart : Walking db (start mode, db) ∧ (start mode).phase ≠ .failed := ⟨.start, by simp [start]⟩
  obtain ⟨⟨r, db'⟩, hreach, -, hdone⟩ := Lts.reach_of_progress (fun x : Repair × Db => x.1.ahead db) hprogress hstart
  exact ⟨db', r, hreach, hdone⟩

/-! ### Both repairs -/

/-- The rows claimed for cleanup are as before. -/
def KeepsClaims (db db' : Db) : Prop :=
  ∀ b ∈ db.blobs.rows, b.refCount = blobCleanupClaimedRefCount → db'.blobs.get b.id = some b

/-- The offline repair of all blobs and the pass of the task both end, with the same reference counts, and neither
touches a claimed row. -/
def RepairsAgree (db : Db) : Prop :=
  ∃ offline online, Repairs (.offline none) db offline ∧ Repairs .online db online ∧ SameCounts offline online ∧
    KeepsClaims db offline ∧ KeepsClaims db online

theorem currentBlobRefCount_nonneg (db : Db) (k : ℕ) : 0 ≤ currentBlobRefCount db k := by
  unfold currentBlobRefCount
  omega

/-- **The repairs agree** exactly when no row is claimed and no count overflows. -/
theorem repairsAgree_iff (db : Db) : RepairsAgree db ↔ ∀ b ∈ db.blobs.rows,
      b.refCount ≠ blobCleanupClaimedRefCount ∧ fitsI32 (currentBlobRefCount db b.id) := by
  constructor
  · rintro ⟨offline, online, hoffline, honline, -, hkept, -⟩ b hb
    refine ⟨fun hclaimed => ?_, (repairs_spec honline).2 rfl b hb⟩
    have hset : offline.blobs.get b.id = some { b with refCount := currentBlobRefCount db b.id } := by
      rw [(repairs_spec hoffline).1, get_repaired, Table.get_of_mem hb, map_some]
      simp [repairedRow, RepairMode.sets]
    have hsame : some b = some { b with refCount := currentBlobRefCount db b.id } := (hkept b hb hclaimed).symm.trans hset
    have hcount : b.refCount = currentBlobRefCount db b.id := congrArg FileBlob.refCount (some.inj hsame)
    have hpos := currentBlobRefCount_nonneg db b.id
    unfold blobCleanupClaimedRefCount at hclaimed
    omega
  · intro h
    obtain ⟨offline, hoffline⟩ := repairs_of_fits (.offline none) fun b hb => (h b hb).2
    obtain ⟨online, honline⟩ := repairs_of_fits .online fun b hb => (h b hb).2
    have hboth : offline = online := by
      rw [(repairs_spec hoffline).1, (repairs_spec honline).1]
      have hrow : ∀ b ∈ db.blobs.rows,
          repairedRow (.offline none) (fun _ => true) db b = repairedRow .online (fun _ => true) db b := by
        intro b hb
        simp [repairedRow, RepairMode.sets, (h b hb).1]
      have hblobs : (repaired (.offline none) (fun _ => true) db).blobs = (repaired .online (fun _ => true) db).blobs :=
        eq_of_rows (map_congr_left hrow) rfl
      show { db with blobs := (repaired (.offline none) (fun _ => true) db).blobs } =
        { db with blobs := (repaired .online (fun _ => true) db).blobs }
      rw [hblobs]
    refine ⟨offline, online, hoffline, honline, fun id => by rw [hboth], ?_, ?_⟩
    all_goals exact fun b hb hclaimed => absurd hclaimed (h b hb).1

/-! ### Repairs beside the server -/

/-- A server, and the repairs that run beside it. -/
structure RepairedServer where
  server : Server
  repairs : List Repair := []

/-- A transaction of the server, or a statement of a repair that meets `G`. -/
inductive RepairStep (env : Env) (G : Repair → Db → Prop) (x : RepairedServer) : RepairedServer → Prop
  | server {s' : Server} (hstep : Step env x.server s') : RepairStep env G x { x with server := s' }
  | begin (mode : RepairMode) : RepairStep env G x { x with repairs := x.repairs ++ [.start mode] }
  | statement {i : ℕ} {r r' : Repair} {db' : Db} (hrepair : x.repairs[i]? = some r) (hguard : G r x.server.db)
      (hstep : stepRepair r x.server.db = some (r', db')) :
      RepairStep env G x { server := { x.server with db := db' }, repairs := x.repairs.set i r' }
  -- a statement fails, or the task loses its lease
  | interrupt {i : ℕ} {r : Repair} (hrepair : x.repairs[i]? = some r) :
      RepairStep env G x { x with repairs := x.repairs.set i { r with phase := .failed } }

inductive RepairReach (env : Env) (G : Repair → Db → Prop) (db : Db) : RepairedServer → Prop
  | start : RepairReach env G db { server := { db } }
  | step {x x' : RepairedServer} (h : RepairReach env G db x) (hstep : RepairStep env G x x') : RepairReach env G db x'

/-- The offline repair does not write to a claimed row, nor a count that has changed since it counted. -/
def Repair.Fresh (r : Repair) (db : Db) : Prop :=
  match r.phase, r.mode, r.blobs with
  | .repairing actual, .offline _, b :: _ =>
    b.refCount ≠ actual b.id → ∀ row ∈ db.blobs.get b.id,
      row.refCount ≠ blobCleanupClaimedRefCount ∧ actual b.id = currentBlobRefCount db b.id
  | _, _, _ => True

theorem setBlobRefCount_self (hb : db.blobs.get k = some b) : setBlobRefCount db.blobs k b.refCount = db.blobs := by
  refine eq_of_rows ?_ rfl
  show db.blobs.rows.map _ = db.blobs.rows
  refine (map_congr_left fun x hx => ?_).trans (List.map_id _)
  by_cases hid : x.id = k
  · obtain rfl : x = b := Table.eq_of_key hx (Table.mem_of_get hb) (hid.trans (Table.key_of_get hb).symm)
    show (if decide (x.id = k) = true then { x with refCount := x.refCount } else x) = x
    split_ifs <;> rfl
  · simp [hid]

theorem repairBlob_reconciles {actual : ℕ → ℤ} (h : repairBlob mode actual b db = some db')
    (hfresh : mode ≠ .online → b.refCount ≠ actual b.id → ∀ row ∈ db.blobs.get b.id,
      row.refCount ≠ blobCleanupClaimedRefCount ∧ actual b.id = currentBlobRefCount db b.id) :
    db' = db ∨ reconcileBlob b.id false db = .ok ((), db') := by
  cases mode with
  | offline policyId =>
    simp only [repairBlob] at h
    split_ifs at h with heq hwrite
    · exact .inl (some.inj h).symm
    · right
      obtain ⟨row, hrow⟩ := isSome_iff_exists.mp hwrite.2
      obtain ⟨hunclaimed, hcurrent⟩ := hfresh (by simp) heq row hrow
      rw [← some.inj h, hcurrent]
      unfold reconcileBlob
      simp only [hrow, hunclaimed, false_and, if_false]
      split_ifs with hsame
      · rw [← hsame, setBlobRefCount_self hrow]
      · rfl
  | online =>
    simp only [repairBlob] at h
    split_ifs at h with hskip
    · exact .inl (some.inj h).symm
    · right
      obtain ⟨⟨u, db''⟩, hok, rfl⟩ := map_eq_some_iff.mp h
      cases hres : reconcileBlob b.id false db with
      | error e =>
        rw [hres] at hok
        cases hok
      | ok y =>
        rw [hres] at hok
        cases hok
        rfl

theorem stepRepair_reconciles (h : stepRepair r db = some (r', db')) (hfresh : r.Fresh db) :
    db' = db ∨ ∃ k, reconcileBlob k false db = .ok ((), db') := by
  cases hphase : r.phase with simp only [stepRepair, hphase] at h
  | scoping | paging =>
    split at h <;> (cases h; exact .inl rfl)
  | countingFiles =>
    cases h
    exact .inl rfl
  | countingRevisions fileRefs =>
    split_ifs at h <;> (cases h; exact .inl rfl)
  | repairing actual =>
    split at h
    next =>
      cases h
      exact .inl rfl
    next b rest hblobs =>
      split at h
      next db'' hrepair =>
        cases h
        refine (repairBlob_reconciles hrepair fun hmode => ?_).imp id fun hok => ⟨b.id, hok⟩
        unfold Repair.Fresh at hfresh
        cases hm : r.mode with
        | offline policyId =>
          simp only [hphase, hm, hblobs] at hfresh
          exact hfresh
        | online => exact absurd hm hmode
      next =>
        cases h
        exact .inl rfl
  | done | failed =>
    cases h

/-- A run with repairs is a run of the server, in which the repairs are reconciling transactions. -/
theorem RepairReach.server {env : Env} {x : RepairedServer} (h : RepairReach env Repair.Fresh db x) :
    Reach env db x.server := by
  induction h with
  | start => exact .start
  | step _ hstep ih =>
    cases hstep with
    | server hstep => exact ih.step hstep
    | begin mode | interrupt hrepair => exact ih
    | statement hrepair hguard hstep =>
      rcases stepRepair_reconciles hstep hguard with rfl | ⟨k, hok⟩
      · exact ih
      · exact ih.step (.reconcile hok)

end

/-- The reference counts of a database: exact, or claimed with no reference left. -/
def CountsExact (db : Db) : Prop :=
  ∀ b ∈ db.blobs.rows, b.refCount = unretiredRefs db b.id ∨
    b.refCount = blobCleanupClaimedRefCount ∧ unretiredRefs db b.id = 0

/-- **The two repairs.** They agree on a database exactly when none of its rows is claimed and none of its counts
overflows; and beside any number of repairs the counts stay exact in every run in which the offline repair writes only
to rows that are not claimed, and only counts that are still right. -/
theorem repairs_agree_and_keep (db : Db) : (RepairsAgree db ↔ ∀ b ∈ db.blobs.rows,
      b.refCount ≠ blobCleanupClaimedRefCount ∧ fitsI32 (currentBlobRefCount db b.id)) ∧
    ∀ (env : Env) (x : RepairedServer), Ledger db.files db.histories db.revisions ∅ →
      (∀ b ∈ db.blobs.rows, b.refCount = unretiredRefs db b.id) → NoDangling db →
      RepairReach env Repair.Fresh db x → CountsExact x.server.db := by
  refine ⟨repairsAgree_iff db, fun env x hledger hrefs hfk hrun => ?_⟩
  exact (exact_of_balanced (balanced_run hledger (balanced_of_exact hrefs hfk) hrun.server)).1

/-! ### Where they differ -/

/-- A blob that is claimed for cleanup, and nothing else. -/
def claimedDb : Db := { emptyDb with blobs := ⟨⟨[⟨1, digestOfA, 1, .stored, some "ca/97", 1, -1⟩], by decide⟩, 2, by decide⟩ }

/-- A repair on its own has ended with these counts. -/
def endedWith (x : Repair × Db) : Option (List ℤ) :=
  match x.1.phase with
  | .done => some (x.2.blobs.rows.map FileBlob.refCount)
  | _ => none

theorem repairs_of_run (mode : RepairMode) (db : Db) (n : ℕ) (counts : List ℤ)
    (h : (repairAlone.run Lts.free (List.replicate n ()) (.start mode, db)).bind endedWith = some counts) :
    ∃ db', Repairs mode db db' ∧ db'.blobs.rows.map FileBlob.refCount = counts := by
  obtain ⟨⟨r, db'⟩, hrun, hended⟩ := bind_eq_some_iff.mp h
  unfold endedWith at hended
  split at hended
  next hdone => exact ⟨db', ⟨r, Lts.reach_of_run hrun, hdone⟩, some.inj hended⟩
  next => cases hended

/-- The claim of a cleanup that is under way: the task leaves it, the offline repair takes it away. -/
theorem repairs_differ :
    ∃ offline online, Repairs (.offline none) claimedDb offline ∧ Repairs .online claimedDb online ∧
      offline.blobs.rows.map FileBlob.refCount = [0] ∧ online.blobs.rows.map FileBlob.refCount = [-1] := by
  obtain ⟨offline, hoffline, hcounts⟩ := repairs_of_run (.offline none) claimedDb 7 [0] (by decide)
  obtain ⟨online, honline, hcounts'⟩ := repairs_of_run .online claimedDb 7 [-1] (by decide)
  exact ⟨offline, online, hoffline, honline, hcounts, hcounts'⟩

/-- The repair that has counted the page of `storedDb` after its blob was stored a second time: the page says one
reference, the count says two. -/
def countedRepair : Repair :=
  { mode := .offline none, maxBlobId := none, lastBlobId := some 1, blobs := storedDb.blobs.rows
    phase := .repairing fun id => countBlobRefsFromFiles overwrittenDb id + (countNonCurrentBlobRefs overwrittenDb id : ℤ) }

/-- `a.txt` is stored, an offline repair reads the page, `a.txt` is overwritten, and the repair counts. -/
theorem counted_run {G : Repair → Db → Prop} (hG : ∀ r db, (∀ actual, r.phase ≠ .repairing actual) → G r db) :
    RepairReach sampleEnv G emptyDb { server := { db := overwrittenDb }, repairs := [countedRepair] } := by
  have hnew : storeA (.newFile none "a.txt" .exact) emptyDb = .ok (storedFile, storedDb) := rfl
  have hover : storeA (.overwrite storedFile none {}) storedDb = .ok (storedFile, overwrittenDb) := rfl
  have hbegun : RepairReach sampleEnv G emptyDb { server := { db := storedDb }, repairs := [.start (.offline none)] } :=
    .step (.step .start (.server (storeA_step hnew))) (.begin (.offline none))
  let paged : Repair := { countedRepair with phase := .countingFiles }
  have hscoped : RepairReach sampleEnv G emptyDb
      { server := { db := storedDb }, repairs := [{ start (.offline none) with phase := .paging }] } :=
    .step hbegun (.statement (i := 0) rfl (hG _ _ (by simp [start])) rfl)
  have hpaged : RepairReach sampleEnv G emptyDb { server := { db := storedDb }, repairs := [paged] } :=
    .step hscoped (.statement (i := 0) rfl (hG _ _ (by simp)) rfl)
  have hoverwritten : RepairReach sampleEnv G emptyDb { server := { db := overwrittenDb }, repairs := [paged] } :=
    .step hpaged (.server (storeA_step hover))
  have hfiles : RepairReach sampleEnv G emptyDb
      { server := { db := overwrittenDb }
        repairs := [{ paged with phase := .countingRevisions (countBlobRefsFromFiles overwrittenDb) }] } :=
    .step hoverwritten (.statement (i := 0) rfl (hG _ _ (by simp [paged])) rfl)
  refine .step hfiles (.statement (i := 0) rfl (hG _ _ (by simp)) ?_)
  simp only [stepRepair, paged]
  rfl

/-- The repair, when it has written its count. -/
def writtenRepair : Repair := { countedRepair with blobs := [] }

theorem repairs_agree_and_keep_overwritten : RepairsAgree overwrittenDb ∧
      ∃ db', RepairReach sampleEnv Repair.Fresh emptyDb { server := { db := db' }, repairs := [writtenRepair] } ∧
        CountsExact db' := by
  refine ⟨(repairs_agree_and_keep overwrittenDb).1.mpr (by decide), ?_⟩
  have hcounted : RepairReach sampleEnv Repair.Fresh emptyDb
      { server := { db := overwrittenDb }, repairs := [countedRepair] } := by
    refine counted_run fun r db hr => ?_
    unfold Repair.Fresh
    split
    next actual _ _ _ hphase _ _ => exact absurd hphase (hr actual)
    next => trivial
  have hfresh : Repair.Fresh countedRepair overwrittenDb := by
    intro _ row hrow
    have hrow' : ∀ row ∈ overwrittenDb.blobs.rows,
        row.refCount ≠ blobCleanupClaimedRefCount ∧ 2 = currentBlobRefCount overwrittenDb 1 := by decide
    exact hrow' row (Table.mem_of_get hrow)
  have hwritten : RepairReach sampleEnv Repair.Fresh emptyDb
      { server := { db := overwrittenDb }, repairs := [writtenRepair] } :=
    .step hcounted (.statement (i := 0) rfl hfresh rfl)
  refine ⟨overwrittenDb, hwritten, ?_⟩
  exact (repairs_agree_and_keep emptyDb).2 sampleEnv _ ledger_empty (fun _ hb => absurd hb not_mem_nil)
    (fun _ hr => absurd hr not_mem_nil) hwritten

/-! ### After a repair -/

/-- A repair that ends leaves the counts in order: it sets a row to its references, and what it does not set was right. -/
theorem balanced_repaired {mode : RepairMode} {db : Db} (hledger : Ledger db.files db.histories db.revisions ∅)
    (hfk : NoDangling db) (hothers : ∀ b ∈ db.blobs.rows, mode.sets b = false →
      b.refCount = unretiredRefs db b.id ∨ b.refCount = blobCleanupClaimedRefCount ∧ unretiredRefs db b.id = 0) :
    Balanced (repaired mode (fun _ => true) db).blobs db.revisions 0 := by
  constructor
  · intro k b' hb'
    rw [get_repaired] at hb'
    obtain ⟨b, hb, rfl⟩ := map_eq_some_iff.mp hb'
    obtain rfl : b.id = k := Table.key_of_get hb
    unfold repairedRow
    cases hsets : mode.sets b with
    | true =>
      left
      show currentBlobRefCount db b.id = refs db.revisions b.id + 0
      rw [currentBlobRefCount_eq hledger, add_zero]
    | false =>
      show b.refCount = refs db.revisions b.id + 0 ∨ b.refCount = -1 ∧ refs db.revisions b.id = 0 ∧ _
      rw [← unretiredRefs_eq, add_zero, Nat.cast_eq_zero]
      exact (hothers b (Table.mem_of_get hb) hsets).imp id fun ⟨hclaimed, hnone⟩ => ⟨hclaimed, hnone, rfl⟩
  · intro k hk
    rw [get_repaired, Option.map_eq_none_iff] at hk
    exact ⟨refs_of_gone hfk hk, rfl⟩

/-- **A repair heals.** However wrong the counts of the rows are that it sets, once it has ended they are exact, and stay
so in every run of the server from then on. -/
theorem repair_heals {mode : RepairMode} {env : Env} {db db' : Db} {s : Server}
    (hledger : Ledger db.files db.histories db.revisions ∅) (hfk : NoDangling db)
    (hothers : ∀ b ∈ db.blobs.rows, mode.sets b = false →
      b.refCount = unretiredRefs db b.id ∨ b.refCount = blobCleanupClaimedRefCount ∧ unretiredRefs db b.id = 0)
    (hrepair : Repairs mode db db') (hrun : Reach env db' s) : CountsExact s.db ∧ NoDangling s.db := by
  obtain rfl := (repairs_spec hrepair).1
  let db' := repaired mode (fun _ => true) db
  have hledger' : Ledger db'.files db'.histories db'.revisions ∅ := hledger
  have hbal : Balanced db'.blobs db'.revisions 0 := balanced_repaired hledger hfk hothers
  exact exact_of_balanced (balanced_run hledger' hbal hrun)

/-- `overwrittenDb` with seven references too many. -/
def miscountedDb : Db :=
  { overwrittenDb with blobs := ⟨⟨[⟨1, digestOfA, 1, .stored, some "ca/97", 1, 9⟩], by decide⟩, 2, by decide⟩ }

theorem repair_heals_miscounted : ∃ db', Repairs (.offline none) miscountedDb db' ∧ CountsExact db' := by
  obtain ⟨db', hrepair⟩ := repairs_of_fits (.offline none) (show ∀ b ∈ miscountedDb.blobs.rows,
    fitsI32 (currentBlobRefCount miscountedDb b.id) by decide)
  have hfk : NoDangling miscountedDb := by
    intro r hr _ k hk
    have hblob : ∀ r ∈ miscountedDb.revisions.rows, r.blobId = some 1 := by decide
    rw [hblob r hr] at hk
    cases hk
    exact ⟨_, rfl⟩
  have hsets : ∀ b ∈ miscountedDb.blobs.rows, (RepairMode.offline none).sets b = true := by decide
  have hledger : Ledger miscountedDb.files miscountedDb.histories miscountedDb.revisions ∅ := overwritten_ledger
  refine ⟨db', hrepair, (repair_heals hledger hfk (fun b hb hkept => ?_) hrepair
    (.start : Reach sampleEnv db' { db := db' })).1⟩
  rw [hsets b hb] at hkept
  cases hkept

end AsterDrive.Db
