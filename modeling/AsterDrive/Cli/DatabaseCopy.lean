import Mathlib.Logic.Function.Basic
import AsterDrive.Lib.Lts
import Mathlib.Algebra.GroupWithZero.Nat

/-!
# Cli/DatabaseCopy — copying a database table by table, with a checkpoint

`database-migrate` copies the tables in a fixed order, and each table in batches of its rows in primary key order
(`copy_tables_with_resume`). The checkpoint is a row of the target database: it is written together with every batch
and between the tables, and a later run goes on where it points.

Two of these go wrong. The checkpoint in memory is advanced before the batch commits, and the failure handler writes it
once more, outside of the transaction: when the commit fails, the next run begins behind rows that are not there
(`rows_skipped`). And a batch may refer to rows of its own table that come in a later one, as a folder does that was
moved into a newer folder: then no run gets past it.
-/

namespace AsterDrive.Cli

open List Option Function

/-- The backends of a target. -/
inductive DbBackend
  | sqlite
  | postgres
  | mySql

/-- The source: its tables in the order of `COPY_TABLE_ORDER`, the rows of each in primary key order. `keys` are the
values of a row in the unique indexes of its table, `references` the rows it refers to, by table and key. The source
meets its constraints. -/
structure CopyPlan (ρ κ : Type*) where
  backend : DbBackend
  batchSize : ℕ
  tables : List (List ρ)
  keys : ρ → List κ
  references : ρ → List (ℕ × κ)
  batchSize_pos : 0 < batchSize
  unique : ∀ rows ∈ tables, rows.Pairwise fun r r' => ∀ k ∈ keys r, k ∉ keys r'
  linked : ∀ rows ∈ tables, ∀ r ∈ rows, ∀ ref ∈ references r, ∃ x ∈ tables.getD ref.1 [], ref.2 ∈ keys x

open CopyPlan

/-- `MigrationCheckpoint`: where a run goes on. -/
structure MigrationCheckpoint where
  currentTableIndex : ℕ
  currentTableOffset : ℕ
  deriving DecidableEq

/-- The statement that a run is about to make. `ahead`: the failure came between the advance of the checkpoint in
memory and the commit. -/
inductive CopyPhase (ρ : Type*)
  | idle
  | preparing
  | loading
  | refreshing
  | checkingEmpty
  | inserting
  | hinting
  | entering
  | fetching
  | writing (rows : List ρ)
  | recording (rows : List ρ)
  | committing (rows : List ρ)
  | committed
  | leaving
  | resetting
  | sealing
  | verifying
  | refreshingRows (ready : Bool)
  | reporting (ready : Bool)
  | failing (ahead : Bool)
  | ended (ready : Bool)

/-- The target, with its checkpoint row, and the run: the checkpoint in memory, its table and its offset. -/
structure CopyState (ρ : Type*) where
  target : ℕ → List ρ
  persisted : Option MigrationCheckpoint
  checkpoint : MigrationCheckpoint
  tableIndex : ℕ
  offset : ℕ
  phase : CopyPhase ρ

open CopyState

inductive CopyAct
  | run
  | proceed (ok : Bool)
  | crash
  deriving DecidableEq

variable {ρ κ : Type*} [DecidableEq κ]

def CopyPlan.rows (P : CopyPlan ρ κ) (t : ℕ) : List ρ := P.tables.getD t []

/-- `fetch_source_batch`: `ORDER BY` the primary key, `LIMIT batch_size OFFSET offset`. -/
def CopyPlan.batch (P : CopyPlan ρ κ) (t offset : ℕ) : List ρ := ((P.rows t).drop offset).take P.batchSize

/-- The tables as the foreign keys of the `i`th row of an insert see them: MySQL checks row by row, the others at the
end of the statement. -/
def CopyPlan.visible (P : CopyPlan ρ κ) (target : ℕ → List ρ) (t : ℕ) (rows : List ρ) (i : ℕ) : ℕ → List ρ :=
  Function.update target t <| target t ++
    match P.backend with
    | .mySql => rows.take (i + 1)
    | .sqlite => rows
    | .postgres => rows

/-- The insert meets the unique indexes and the foreign keys of the target. -/
def CopyPlan.insertAllowed (P : CopyPlan ρ κ) (target : ℕ → List ρ) (t : ℕ) (rows : List ρ) : Bool :=
  (target t ++ rows).Pairwise (fun r r' => ∀ k ∈ P.keys r, k ∉ P.keys r') ∧
    ∀ i < rows.length, ∀ r ∈ rows[i]?, ∀ ref ∈ P.references r, ∃ x ∈ P.visible target t rows i ref.1, ref.2 ∈ P.keys x

/-- Out of the loop over the batches. -/
def CopyState.leave (x : CopyState ρ) : CopyState ρ := { x with checkpoint := ⟨x.tableIndex + 1, 0⟩, phase := .leaving }

/-- `while offset < plan.source_rows`. -/
def CopyState.loop (P : CopyPlan ρ κ) (x : CopyState ρ) : CopyState ρ :=
  if x.offset < (P.rows x.tableIndex).length then { x with phase := .fetching } else x.leave

/-- `for table_index in start_table_index..plans.len()`. -/
def CopyState.enter (P : CopyPlan ρ κ) (x : CopyState ρ) (tableIndex offset : ℕ) : CopyState ρ :=
  if tableIndex < P.tables.length then
    { x with checkpoint := { x.checkpoint with currentTableIndex := tableIndex }, tableIndex, offset, phase := .entering }
  else { x with phase := .resetting }

/-- The next statement of the run, which succeeds or fails. -/
def proceedCopy (P : CopyPlan ρ κ) (x : CopyState ρ) (ok : Bool) : Option (CopyState ρ) :=
  match x.phase with
  | .idle => none
  | .ended _ => none
  -- the schema and the checkpoint table: their errors leave without the failure handler
  | .preparing => some { x with phase := if ok then .loading else .ended false }
  -- `initialize_checkpoint`; the plan of an unchanged source is the one of the checkpoint
  | .loading =>
    if ok then
      match x.persisted with
      | some checkpoint => some { x with checkpoint, phase := .refreshing }
      | none => some { x with phase := .checkingEmpty }
    else some { x with phase := .ended false }
  | .refreshing =>
    if ok then some { x with persisted := some x.checkpoint, phase := .hinting } else some { x with phase := .ended false }
  | .checkingEmpty =>
    if ok ∧ ∀ t < P.tables.length, (x.target t).isEmpty then some { x with phase := .inserting }
    else some { x with phase := .ended false }
  | .inserting =>
    if ok then some { x with checkpoint := ⟨0, 0⟩, persisted := some ⟨0, 0⟩, phase := .hinting }
    else some { x with phase := .ended false }
  -- `load_target_type_hints`
  | .hinting =>
    if ok then some (x.enter P x.checkpoint.currentTableIndex x.checkpoint.currentTableOffset)
    else some { x with phase := .failing false }
  | .entering =>
    if ok then some ({ x with persisted := some x.checkpoint }.loop P) else some { x with phase := .failing false }
  | .fetching =>
    if ok then
      match P.batch x.tableIndex x.offset with
      | [] => some x.leave
      | r :: rest => some { x with phase := .writing (r :: rest) }
    else some { x with phase := .failing false }
  -- `begin` and `insert_batch`: nothing is seen of them before the commit
  | .writing rows =>
    if ok ∧ P.insertAllowed x.target x.tableIndex rows then
      some { x with
        offset := x.offset + rows.length
        checkpoint := ⟨x.tableIndex, x.offset + rows.length⟩
        phase := .recording rows }
    else some { x with phase := .failing false }
  | .recording rows => some { x with phase := if ok then .committing rows else .failing true }
  | .committing rows =>
    if ok then
      some { x with
        target := Function.update x.target x.tableIndex (x.target x.tableIndex ++ rows)
        persisted := some x.checkpoint
        phase := .committed }
    else some { x with phase := .failing true }
  -- `fail_after_batches`
  | .committed => if ok then some (x.loop P) else some { x with phase := .failing false }
  | .leaving =>
    if ok then some ({ x with persisted := some x.checkpoint }.enter P (x.tableIndex + 1) 0)
    else some { x with phase := .failing false }
  | .resetting =>
    if ok then some { x with checkpoint := ⟨P.tables.length, 0⟩, phase := .sealing }
    else some { x with phase := .failing false }
  | .sealing =>
    if ok then some { x with persisted := some x.checkpoint, phase := .verifying }
    else some { x with phase := .failing false }
  -- `verify_target`: the row counts
  | .verifying =>
    if ok then
      some { x with phase := .refreshingRows (∀ t < P.tables.length, (x.target t).length = (P.rows t).length) }
    else some { x with phase := .failing false }
  | .refreshingRows ready =>
    if ok then some { x with phase := .reporting ready } else some { x with phase := .failing false }
  | .reporting ready =>
    if ok then some { x with persisted := some x.checkpoint, phase := .ended ready }
    else some { x with phase := .ended false }
  -- `mark_checkpoint_failed_best_effort`
  | .failing _ =>
    if ok then some { x with persisted := some x.checkpoint, phase := .ended false }
    else some { x with phase := .ended false }

/-- No run. -/
def CopyPhase.over : CopyPhase ρ → Bool
  | .idle => true
  | .ended _ => true
  | _ => false

/-- A run begins, goes on, or crashes. -/
def stepCopy (P : CopyPlan ρ κ) (x : CopyState ρ) : CopyAct → Option (CopyState ρ)
  | .run => if x.phase.over then some { x with phase := .preparing } else none
  | .proceed ok => proceedCopy P x ok
  | .crash => if x.phase.over then none else some { x with phase := .ended false }

def databaseCopy (P : CopyPlan ρ κ) : Lts (CopyState ρ) CopyAct := ⟨stepCopy P⟩

/-- An empty target. -/
def CopyState.start : CopyState ρ :=
  { target := fun _ => [], persisted := none, checkpoint := ⟨0, 0⟩, tableIndex := 0, offset := 0, phase := .idle }

/-- How many rows of a table the checkpoint says are there. -/
def CopyPlan.copied (P : CopyPlan ρ κ) (checkpoint : MigrationCheckpoint) (t : ℕ) : ℕ :=
  if t < checkpoint.currentTableIndex then (P.rows t).length
  else if t = checkpoint.currentTableIndex then checkpoint.currentTableOffset
  else 0

/-- The target has the first rows of every table, as many as the checkpoint says. -/
def CopyPlan.At (P : CopyPlan ρ κ) (checkpoint : MigrationCheckpoint) (target : ℕ → List ρ) : Prop :=
  ∀ t, target t = (P.rows t).take (P.copied checkpoint t)

/-- The target is as the checkpoint in it says. -/
def CopyState.Mirrors (P : CopyPlan ρ κ) (x : CopyState ρ) : Prop :=
  match x.persisted with
  | some checkpoint => P.At checkpoint x.target
  | none => ∀ t, x.target t = []

/-- After a failure between the advance of the checkpoint and the commit of its batch, the write of the failure handler
fails as well. -/
def NotAhead (x : CopyState ρ) (a : CopyAct) : Prop :=
  match x.phase with
  | .failing true => a ≠ .proceed true
  | _ => True

instance (x : CopyState ρ) (a : CopyAct) : Decidable (NotAhead x a) := by
  unfold NotAhead
  split <;> infer_instance

/-- Every row refers to rows of earlier tables, or of its own table: in its batch or an earlier one, or for MySQL
no later than itself. -/
def CopyPlan.Ordered (P : CopyPlan ρ κ) : Prop :=
  ∀ t j r, (P.rows t)[j]? = some r → ∀ ref ∈ P.references r, ∃ j' x, (P.rows ref.1)[j']? = some x ∧ ref.2 ∈ P.keys x ∧
    (ref.1 < t ∨ ref.1 = t ∧
      match P.backend with
      | .mySql => j' ≤ j
      | .sqlite => j' / P.batchSize ≤ j / P.batchSize
      | .postgres => j' / P.batchSize ≤ j / P.batchSize)

/-! ### What every state between two steps looks like -/

section

omit [DecidableEq κ]

variable {P : CopyPlan ρ κ} {x x' : CopyState ρ} {a : CopyAct} {target : ℕ → List ρ} {c : MigrationCheckpoint}
  {t offset before : ℕ}

theorem rows_of_le (h : P.tables.length ≤ t) : P.rows t = [] := by
  unfold CopyPlan.rows
  rw [getD_eq_getElem?_getD, getElem?_eq_none h]
  rfl

theorem take_batch (t before : ℕ) :
    (P.rows t).take before ++ P.batch t before = (P.rows t).take (before + (P.batch t before).length) := by
  have hpiece : P.batch t before = ((P.rows t).drop before).take (P.batch t before).length := by
    unfold batch
    rw [length_take, take_eq_take_iff, Nat.min_assoc, Nat.min_self]
  rw [take_add, ← hpiece]

theorem length_batch (t before : ℕ) : (P.batch t before).length = min P.batchSize ((P.rows t).length - before) := by
  unfold batch
  rw [length_take, length_drop]

theorem CopyPlan.At.commit (h : P.At ⟨t, before⟩ target) :
    P.At ⟨t, before + (P.batch t before).length⟩ (Function.update target t (target t ++ P.batch t before)) := by
  intro k
  by_cases hk : k = t
  · subst hk
    have hold := h k
    simp only [copied, Nat.lt_irrefl, if_false, if_true] at hold ⊢
    rw [update_self, hold, take_batch]
  · have hold := h k
    unfold copied at hold ⊢
    rw [update_of_ne hk, hold]
    simp only [hk, if_false]

theorem CopyPlan.At.next (h : P.At ⟨t, offset⟩ target) (hend : (P.rows t).length ≤ offset) : P.At ⟨t + 1, 0⟩ target := by
  intro k
  rw [h k]
  unfold copied
  dsimp only
  by_cases hlt : k < t
  · rw [if_pos hlt, if_pos (by omega)]
  · by_cases heq : k = t
    · subst heq
      rw [if_neg hlt, if_pos rfl, if_pos (by omega), take_of_length_le hend, take_length]
    · rw [if_neg hlt, if_neg heq, if_neg (by omega)]
      split_ifs <;> rfl

theorem CopyPlan.At.finish (h : P.At c target) (hend : P.tables.length ≤ c.currentTableIndex) :
    P.At ⟨P.tables.length, 0⟩ target := by
  intro k
  rw [h k]
  by_cases hk : k < P.tables.length
  · simp [copied, hk, Nat.lt_of_lt_of_le hk hend]
  · rw [rows_of_le (Nat.not_lt.mp hk), take_nil, take_nil]

/-- A checkpoint lies at the beginning of a batch, or at the end of its table. -/
def CopyPlan.Aligned (P : CopyPlan ρ κ) (c : MigrationCheckpoint) : Prop :=
  c.currentTableOffset ≤ (P.rows c.currentTableIndex).length ∧
    (c.currentTableOffset % P.batchSize = 0 ∨ c.currentTableOffset = (P.rows c.currentTableIndex).length)

theorem aligned_zero (h : c = ⟨t, 0⟩) : P.Aligned c := by
  rw [h]
  exact ⟨Nat.zero_le _, .inl (Nat.zero_mod _)⟩

theorem CopyPlan.Aligned.batch (h : P.Aligned ⟨t, before⟩) : P.Aligned ⟨t, before + (P.batch t before).length⟩ := by
  obtain ⟨hle, halign⟩ := h
  dsimp only at hle halign
  rw [length_batch]
  refine ⟨?_, ?_⟩
  · show before + min P.batchSize ((P.rows t).length - before) ≤ (P.rows t).length
    omega
  · show (before + min P.batchSize ((P.rows t).length - before)) % P.batchSize = 0 ∨
      before + min P.batchSize ((P.rows t).length - before) = (P.rows t).length
    by_cases hfull : P.batchSize ≤ (P.rows t).length - before
    · rcases halign with hzero | hend
      · left
        rw [Nat.min_eq_left hfull, Nat.add_mod_right, hzero]
      · right
        omega
    · right
      omega

/-- What the run knows in each phase. -/
def CopyState.Phased (P : CopyPlan ρ κ) (x : CopyState ρ) : Prop :=
  match x.phase with
  | .idle => True
  | .preparing => True
  | .loading => True
  | .refreshing => x.persisted = some x.checkpoint
  | .checkingEmpty => x.persisted = none
  | .inserting => x.persisted = none
  | .hinting => x.persisted = some x.checkpoint
  | .entering => P.At x.checkpoint x.target ∧ P.Aligned x.checkpoint ∧ x.checkpoint = ⟨x.tableIndex, x.offset⟩ ∧
      x.tableIndex < P.tables.length
  | .fetching => x.persisted = some x.checkpoint ∧ x.checkpoint = ⟨x.tableIndex, x.offset⟩ ∧
      x.offset < (P.rows x.tableIndex).length
  | .writing rows => x.persisted = some x.checkpoint ∧ x.checkpoint = ⟨x.tableIndex, x.offset⟩ ∧
      x.offset < (P.rows x.tableIndex).length ∧ rows = P.batch x.tableIndex x.offset
  | .recording rows => ∃ before, x.persisted = some ⟨x.tableIndex, before⟩ ∧ rows = P.batch x.tableIndex before ∧
      before < (P.rows x.tableIndex).length ∧ x.offset = before + rows.length ∧ x.checkpoint = ⟨x.tableIndex, x.offset⟩
  | .committing rows => ∃ before, x.persisted = some ⟨x.tableIndex, before⟩ ∧ rows = P.batch x.tableIndex before ∧
      before < (P.rows x.tableIndex).length ∧ x.offset = before + rows.length ∧ x.checkpoint = ⟨x.tableIndex, x.offset⟩
  | .committed => x.persisted = some x.checkpoint ∧ x.checkpoint = ⟨x.tableIndex, x.offset⟩
  | .leaving => P.At x.checkpoint x.target ∧ x.checkpoint = ⟨x.tableIndex + 1, 0⟩ ∧ (P.rows x.tableIndex).length ≤ x.offset
  | .resetting => P.At x.checkpoint x.target ∧ P.Aligned x.checkpoint ∧ P.tables.length ≤ x.checkpoint.currentTableIndex
  | .sealing => P.At x.checkpoint x.target ∧ x.checkpoint = ⟨P.tables.length, 0⟩
  | .verifying => P.At x.checkpoint x.target ∧ x.checkpoint = ⟨P.tables.length, 0⟩
  | .refreshingRows _ => P.At x.checkpoint x.target ∧ x.checkpoint = ⟨P.tables.length, 0⟩
  | .reporting _ => P.At x.checkpoint x.target ∧ x.checkpoint = ⟨P.tables.length, 0⟩
  | .failing ahead => ahead = false → P.At x.checkpoint x.target ∧ P.Aligned x.checkpoint
  | .ended true => P.At ⟨P.tables.length, 0⟩ x.target
  | .ended false => True

/-- The target mirrors its checkpoint, which is aligned, and the run knows what it is about to do. -/
structure Resumable (P : CopyPlan ρ κ) (x : CopyState ρ) : Prop where
  mirrors : x.Mirrors P
  aligned : ∀ c ∈ x.persisted, P.Aligned c
  phased : x.Phased P

theorem Resumable.start : Resumable P start := ⟨fun _ => rfl, fun _ hc => (nomatch hc), trivial⟩

theorem Resumable.at (h : Resumable P x) (hc : x.persisted = some c) : P.At c x.target ∧ P.Aligned c := by
  refine ⟨?_, h.aligned c hc⟩
  have hmirrors := h.mirrors
  unfold CopyState.Mirrors at hmirrors
  rw [hc] at hmirrors
  exact hmirrors

theorem Resumable.turn {y : CopyState ρ} (h : Resumable P x) (htarget : y.target = x.target)
    (hpersisted : y.persisted = x.persisted) (hphased : y.Phased P) : Resumable P y := by
  refine ⟨?_, ?_, hphased⟩
  · unfold CopyState.Mirrors
    rw [hpersisted, htarget]
    exact h.mirrors
  · rw [hpersisted]
    exact h.aligned

theorem Resumable.persist {y : CopyState ρ} (hpersisted : y.persisted = some c) (hat : P.At c y.target)
    (haligned : P.Aligned c) (hphased : y.Phased P) : Resumable P y := by
  refine ⟨?_, ?_, hphased⟩
  · unfold CopyState.Mirrors
    rw [hpersisted]
    exact hat
  · intro c' hc'
    rw [hpersisted] at hc'
    cases hc'
    exact haligned

theorem Resumable.loop (h : Resumable P x) (hpersisted : x.persisted = some x.checkpoint)
    (hposition : x.checkpoint = ⟨x.tableIndex, x.offset⟩) : Resumable P (x.loop P) := by
  obtain ⟨hat, -⟩ := h.at hpersisted
  unfold CopyState.loop
  split_ifs with hmore
  · exact h.turn rfl rfl ⟨hpersisted, hposition, hmore⟩
  · have hend : (P.rows x.tableIndex).length ≤ x.offset := Nat.not_lt.mp hmore
    rw [hposition] at hat
    exact h.turn rfl rfl ⟨hat.next hend, rfl, hend⟩

theorem Resumable.enter {tableIndex : ℕ} (h : Resumable P x) (hpersisted : x.persisted = some x.checkpoint)
    (hposition : x.checkpoint = ⟨tableIndex, offset⟩) : Resumable P (x.enter P tableIndex offset) := by
  obtain ⟨hat, haligned⟩ := h.at hpersisted
  have hsame : { x.checkpoint with currentTableIndex := tableIndex } = x.checkpoint := by
    rw [hposition]
  unfold CopyState.enter
  rw [hsame]
  split_ifs with hmore
  · exact h.turn rfl rfl ⟨hat, haligned, hposition, hmore⟩
  · refine h.turn rfl rfl ⟨hat, haligned, ?_⟩
    show P.tables.length ≤ x.checkpoint.currentTableIndex
    rw [hposition]
    exact Nat.not_lt.mp hmore

end

section

variable {P : CopyPlan ρ κ} {x x' : CopyState ρ} {a : CopyAct}

theorem Resumable.proceed {ok : Bool} (h : Resumable P x) (hguard : NotAhead x (.proceed ok))
    (hstep : proceedCopy P x ok = some x') : Resumable P x' := by
  have hphased := h.phased
  cases hphase : x.phase with (simp only [CopyState.Phased, hphase] at hphased; simp only [proceedCopy, hphase] at hstep)
  | idle | ended ready =>
    cases hstep
  | preparing =>
    cases hstep
    cases ok with
    | true | false => exact h.turn rfl rfl trivial
  | loading =>
    split_ifs at hstep
    · split at hstep
      next c hc =>
        cases hstep
        exact h.turn rfl rfl hc
      next hc =>
        cases hstep
        exact h.turn rfl rfl hc
    · cases hstep
      exact h.turn rfl rfl trivial
  | refreshing =>
    split_ifs at hstep
    · cases hstep
      exact h.turn rfl hphased.symm rfl
    · cases hstep
      exact h.turn rfl rfl trivial
  | checkingEmpty =>
    split_ifs at hstep
    · cases hstep
      exact h.turn rfl rfl hphased
    · cases hstep
      exact h.turn rfl rfl trivial
  | inserting =>
    split_ifs at hstep
    · cases hstep
      have hempty : ∀ t, x.target t = [] := by
        have hmirrors := h.mirrors
        unfold CopyState.Mirrors at hmirrors
        rw [hphased] at hmirrors
        exact hmirrors
      refine .persist rfl (fun t => ?_) (aligned_zero rfl) rfl
      show x.target t = _
      rw [hempty t]
      simp [copied]
    · cases hstep
      exact h.turn rfl rfl trivial
  | hinting =>
    split_ifs at hstep
    · cases hstep
      exact h.enter hphased rfl
    · cases hstep
      exact h.turn rfl rfl fun _ => h.at hphased
  | entering =>
    obtain ⟨hat, haligned, hposition, -⟩ := hphased
    split_ifs at hstep
    · cases hstep
      have hwritten : Resumable P { x with persisted := some x.checkpoint, phase := .committed } :=
        .persist rfl hat haligned ⟨rfl, hposition⟩
      exact hwritten.loop rfl hposition
    · cases hstep
      exact h.turn rfl rfl fun _ => ⟨hat, haligned⟩
  | fetching =>
    obtain ⟨hpersisted, hposition, hmore⟩ := hphased
    split_ifs at hstep
    · split at hstep
      next hnil =>
        -- there are rows behind the offset
        have hlength := length_batch (P := P) x.tableIndex x.offset
        have hpos := P.batchSize_pos
        rw [hnil, length_nil] at hlength
        omega
      next r rest hcons =>
        cases hstep
        exact h.turn rfl rfl ⟨hpersisted, hposition, hmore, hcons.symm⟩
    · cases hstep
      exact h.turn rfl rfl fun _ => h.at hpersisted
  | writing rows =>
    obtain ⟨hpersisted, hposition, hmore, hrows⟩ := hphased
    split_ifs at hstep
    · cases hstep
      exact h.turn rfl rfl ⟨x.offset, hpersisted.trans (congrArg some hposition), hrows, hmore, rfl, rfl⟩
    · cases hstep
      exact h.turn rfl rfl fun _ => h.at hpersisted
  | recording rows =>
    cases hstep
    cases ok with
    | true => exact h.turn rfl rfl hphased
    | false => exact h.turn rfl rfl fun hahead => (nomatch hahead)
  | committing rows =>
    obtain ⟨before, hpersisted, rfl, -, hoffset, hposition⟩ := hphased
    obtain ⟨hat, haligned⟩ := h.at hpersisted
    split_ifs at hstep
    · cases hstep
      refine .persist (congrArg some hposition) ?_ ?_ ⟨rfl, hposition⟩
      · rw [hoffset]
        exact hat.commit
      · rw [hoffset]
        exact haligned.batch
    · cases hstep
      exact h.turn rfl rfl fun hahead => (nomatch hahead)
  | committed =>
    obtain ⟨hpersisted, hposition⟩ := hphased
    split_ifs at hstep
    · cases hstep
      exact h.loop hpersisted hposition
    · cases hstep
      exact h.turn rfl rfl fun _ => h.at hpersisted
  | leaving =>
    obtain ⟨hat, hposition, -⟩ := hphased
    have haligned : P.Aligned x.checkpoint := aligned_zero hposition
    split_ifs at hstep
    · cases hstep
      have hwritten : Resumable P { x with persisted := some x.checkpoint, phase := .idle } :=
        .persist rfl hat haligned trivial
      exact hwritten.enter rfl hposition
    · cases hstep
      exact h.turn rfl rfl fun _ => ⟨hat, haligned⟩
  | resetting =>
    obtain ⟨hat, haligned, hend⟩ := hphased
    split_ifs at hstep
    · cases hstep
      exact h.turn rfl rfl ⟨hat.finish hend, rfl⟩
    · cases hstep
      exact h.turn rfl rfl fun _ => ⟨hat, haligned⟩
  | sealing =>
    obtain ⟨hat, hposition⟩ := hphased
    have haligned : P.Aligned x.checkpoint := aligned_zero hposition
    split_ifs at hstep
    · cases hstep
      exact .persist rfl hat haligned ⟨hat, hposition⟩
    · cases hstep
      exact h.turn rfl rfl fun _ => ⟨hat, haligned⟩
  | verifying | refreshingRows ready =>
    obtain ⟨hat, hposition⟩ := hphased
    have haligned : P.Aligned x.checkpoint := aligned_zero hposition
    split_ifs at hstep
    · cases hstep
      exact h.turn rfl rfl ⟨hat, hposition⟩
    · cases hstep
      exact h.turn rfl rfl fun _ => ⟨hat, haligned⟩
  | reporting ready =>
    obtain ⟨hat, hposition⟩ := hphased
    have haligned : P.Aligned x.checkpoint := aligned_zero hposition
    split_ifs at hstep
    · cases hstep
      refine .persist rfl hat haligned ?_
      cases ready with
      | true =>
        show P.At ⟨P.tables.length, 0⟩ x.target
        rw [← hposition]
        exact hat
      | false => trivial
    · cases hstep
      exact h.turn rfl rfl trivial
  | failing ahead =>
    split_ifs at hstep with hok
    · cases hstep
      cases ahead with
      | true =>
        simp only [NotAhead, hphase, hok] at hguard
        exact absurd rfl hguard
      | false =>
        obtain ⟨hat, haligned⟩ := hphased rfl
        exact .persist rfl hat haligned trivial
    · cases hstep
      exact h.turn rfl rfl trivial

theorem Resumable.step (h : Resumable P x) (hguard : NotAhead x a) (hstep : stepCopy P x a = some x') :
    Resumable P x' := by
  cases a with
  | run | crash =>
    simp only [stepCopy] at hstep
    split_ifs at hstep
    cases hstep
    exact h.turn rfl rfl trivial
  | proceed ok => exact h.proceed hguard hstep

/-! ### A run in which nothing fails -/

theorem insertAllowed_batch {target : ℕ → List ρ} {t offset : ℕ} (hordered : P.Ordered) (hat : P.At ⟨t, offset⟩ target)
    (haligned : P.Aligned ⟨t, offset⟩) (hmore : offset < (P.rows t).length) :
    P.insertAllowed target t (P.batch t offset) := by
  have hpresent : target t = (P.rows t).take offset := by
    rw [hat t]
    simp [copied]
  have hbatch : ∀ i r, (P.batch t offset)[i]? = some r → i < P.batchSize ∧ (P.rows t)[offset + i]? = some r := by
    intro i r hr
    unfold batch at hr
    rw [getElem?_take] at hr
    split_ifs at hr with hi
    rw [getElem?_drop] at hr
    exact ⟨hi, hr⟩
  refine decide_eq_true ⟨?_, ?_⟩
  · have hin : P.rows t ∈ P.tables := by
      by_cases ht : t < P.tables.length
      · unfold CopyPlan.rows
        rw [getD_eq_getElem?_getD, getElem?_eq_getElem ht]
        exact getElem_mem ht
      · rw [rows_of_le (Nat.not_lt.mp ht)] at hmore
        cases hmore
    rw [hpresent, take_batch]
    exact (P.unique _ hin).sublist (take_sublist _ _)
  · intro i hi r hr ref href
    obtain ⟨hlt, hrow⟩ := hbatch i r hr
    obtain ⟨j', x, hx, hkey, hplace⟩ := hordered t (offset + i) r hrow ref href
    refine ⟨x, ?_, hkey⟩
    unfold visible
    rcases hplace with hearlier | ⟨hown, hplace⟩
    · -- an earlier table is complete
      rw [update_of_ne (Nat.ne_of_lt hearlier), hat ref.1]
      simp only [copied, hearlier, if_true, take_length]
      exact mem_of_getElem? hx
    · rw [hown] at hx ⊢
      rw [update_self, hpresent]
      have hj' : j' < (P.rows t).length := (List.getElem?_eq_some_iff.mp hx).1
      have hmember : ∀ n, j' < n → x ∈ (P.rows t).take n := fun n hn =>
        mem_of_getElem? (by rw [getElem?_take_of_lt hn]; exact hx)
      have hpage : j' / P.batchSize ≤ (offset + i) / P.batchSize → x ∈ (P.rows t).take offset ++ P.batch t offset := by
        intro hle
        rw [take_batch, length_batch]
        refine hmember _ ?_
        have hstart : offset % P.batchSize = 0 := by
          rcases haligned.2 with hzero | hend
          · exact hzero
          · exact absurd hend (Nat.ne_of_lt hmore)
        have hsame : (offset + i) / P.batchSize = offset / P.batchSize := by
          rw [← Nat.div_add_mod offset P.batchSize, hstart, Nat.add_zero, Nat.mul_add_div P.batchSize_pos,
            Nat.div_eq_of_lt hlt, Nat.add_zero, Nat.mul_div_cancel_left _ P.batchSize_pos]
        rw [hsame] at hle
        have hnext : j' < (offset / P.batchSize + 1) * P.batchSize :=
          (Nat.div_lt_iff_lt_mul P.batchSize_pos).mp (Nat.lt_succ_of_le hle)
        have hoffset : offset / P.batchSize * P.batchSize = offset := Nat.div_mul_cancel (Nat.dvd_of_mod_eq_zero hstart)
        rw [Nat.add_mul, Nat.one_mul, hoffset] at hnext
        omega
      cases hbackend : P.backend with
      | mySql =>
        simp only [hbackend] at hplace ⊢
        have hpiece : (P.batch t offset).take (i + 1) = ((P.rows t).drop offset).take (i + 1) := by
          unfold batch
          rw [take_take, Nat.min_eq_left (by omega)]
        rw [hpiece, ← take_add]
        exact hmember _ (by omega)
      | sqlite | postgres =>
        simp only [hbackend] at hplace ⊢
        exact hpage hplace

/-- The rows that are still to be copied. -/
def CopyState.remaining (P : CopyPlan ρ κ) (x : CopyState ρ) : ℕ :=
  ((P.rows x.tableIndex).length - x.offset) + ((P.tables.drop (x.tableIndex + 1)).map List.length).sum

/-- More than a run can still have to do once it copies. -/
def CopyPlan.work (P : CopyPlan ρ κ) : ℕ := 6 * (P.tables.map List.length).sum + 3 * P.tables.length + 9

/-- An upper bound of the statements before the run ends. -/
def CopyState.ahead (P : CopyPlan ρ κ) (x : CopyState ρ) : ℕ :=
  let copying (rank : ℕ) := 6 * x.remaining P + 3 * (P.tables.length - x.tableIndex) + rank
  match x.phase with
  | .preparing => P.work + 5
  | .loading => P.work + 4
  | .checkingEmpty => P.work + 3
  | .inserting => P.work + 2
  | .refreshing => P.work + 2
  | .hinting => P.work + 1
  | .entering => copying 8
  | .fetching => copying 5
  | .writing _ => copying 4
  | .recording _ => copying 9
  | .committing _ => copying 8
  | .committed => copying 7
  | .leaving => copying 6
  | .resetting => 5
  | .sealing => 4
  | .verifying => 3
  | .refreshingRows _ => 2
  | .reporting _ => 1
  | .idle => 0
  | .failing _ => 0
  | .ended _ => 0

/-- Nothing has failed since the run began. -/
def CopyPhase.smooth : CopyPhase ρ → Bool
  | .idle => false
  | .failing _ => false
  | .refreshingRows ready => ready
  | .reporting ready => ready
  | .ended ready => ready
  | _ => true

omit [DecidableEq κ] in
theorem rows_drop {t : ℕ} (h : t < P.tables.length) :
    ((P.tables.drop t).map List.length).sum = (P.rows t).length + ((P.tables.drop (t + 1)).map List.length).sum := by
  have hrow : P.rows t = P.tables[t] := by
    unfold CopyPlan.rows
    rw [getD_eq_getElem?_getD, getElem?_eq_getElem h]
    rfl
  rw [drop_eq_getElem_cons h, map_cons, sum_cons, hrow]

omit [DecidableEq κ] in
theorem sum_drop_le (t : ℕ) : ((P.tables.drop t).map List.length).sum ≤ (P.tables.map List.length).sum := by
  induction t with
  | zero => exact Nat.le_refl _
  | succ t ih =>
    by_cases ht : t < P.tables.length
    · have hdrop := rows_drop (P := P) ht
      omega
    · rw [drop_of_length_le (by omega)]
      exact Nat.zero_le _

omit [DecidableEq κ] in
theorem ahead_enter {tableIndex offset : ℕ} : (x.enter P tableIndex offset).ahead P ≤ P.work ∧
    (x.enter P tableIndex offset).phase.smooth := by
  unfold enter
  split_ifs with h
  · refine ⟨?_, rfl⟩
    have hdrop := rows_drop (P := P) h
    have hsum := sum_drop_le (P := P) tableIndex
    unfold ahead remaining work
    dsimp only
    omega
  · refine ⟨?_, rfl⟩
    unfold ahead work
    dsimp only
    omega

omit [DecidableEq κ] in
theorem ahead_loop : (x.loop P).ahead P ≤ 6 * x.remaining P + 3 * (P.tables.length - x.tableIndex) + 6 ∧
    (x.loop P).phase.smooth := by
  unfold loop
  split_ifs
  · refine ⟨?_, rfl⟩
    unfold ahead remaining
    dsimp only
    omega
  · exact ⟨Nat.le_refl _, rfl⟩

theorem Resumable.progress (h : Resumable P x) (hordered : P.Ordered) (hsmooth : x.phase.smooth)
    (hover : x.phase.over = false) :
    ∃ x', proceedCopy P x true = some x' ∧ x'.phase.smooth ∧ x'.ahead P < x.ahead P := by
  have hphased := h.phased
  cases hphase : x.phase with (simp only [CopyState.Phased, hphase] at hphased; rw [hphase] at hsmooth)
  | preparing =>
    refine ⟨{ x with phase := .loading }, ?_, rfl, ?_⟩
    · simp [proceedCopy, hphase]
    · simp only [ahead, hphase]
      omega
  | loading =>
    cases hc : x.persisted with
    | some c =>
      refine ⟨{ x with checkpoint := c, phase := .refreshing }, ?_, rfl, ?_⟩
      · simp [proceedCopy, hphase, hc]
      · simp only [ahead, hphase]
        omega
    | none =>
      refine ⟨{ x with phase := .checkingEmpty }, ?_, rfl, ?_⟩
      · simp [proceedCopy, hphase, hc]
      · simp only [ahead, hphase]
        omega
  | refreshing =>
    refine ⟨{ x with persisted := some x.checkpoint, phase := .hinting }, ?_, rfl, ?_⟩
    · simp [proceedCopy, hphase]
    · simp only [ahead, hphase]
      omega
  | checkingEmpty =>
    have hempty : ∀ t < P.tables.length, (x.target t).isEmpty := by
      intro t _
      have hmirrors := h.mirrors
      unfold CopyState.Mirrors at hmirrors
      rw [hphased] at hmirrors
      rw [show x.target t = [] from hmirrors t]
      rfl
    refine ⟨{ x with phase := .inserting }, ?_, rfl, ?_⟩
    · simp only [proceedCopy, hphase]
      exact if_pos ⟨trivial, hempty⟩
    · simp only [ahead, hphase]
      omega
  | inserting =>
    refine ⟨{ x with checkpoint := ⟨0, 0⟩, persisted := some ⟨0, 0⟩, phase := .hinting }, ?_, rfl, ?_⟩
    · simp [proceedCopy, hphase]
    · simp only [ahead, hphase]
      omega
  | hinting =>
    have henter : (x.enter P x.checkpoint.currentTableIndex x.checkpoint.currentTableOffset).ahead P ≤ P.work ∧
        (x.enter P x.checkpoint.currentTableIndex x.checkpoint.currentTableOffset).phase.smooth := ahead_enter
    obtain ⟨hle, hphase'⟩ := henter
    refine ⟨x.enter P x.checkpoint.currentTableIndex x.checkpoint.currentTableOffset, ?_, hphase', ?_⟩
    · simp [proceedCopy, hphase]
    · have hahead : x.ahead P = P.work + 1 := by simp only [ahead, hphase]
      omega
  | entering =>
    obtain ⟨hle, hphase'⟩ := ahead_loop (P := P) (x := { x with persisted := some x.checkpoint })
    refine ⟨{ x with persisted := some x.checkpoint }.loop P, ?_, hphase', ?_⟩
    · simp [proceedCopy, hphase]
    · have hahead : x.ahead P = 6 * x.remaining P + 3 * (P.tables.length - x.tableIndex) + 8 := by
        simp only [ahead, hphase]
      have hsame : remaining P { x with persisted := some x.checkpoint } = x.remaining P := rfl
      dsimp only at hle
      omega
  | fetching =>
    obtain ⟨-, -, hmore⟩ := hphased
    have hlength := length_batch (P := P) x.tableIndex x.offset
    cases hbatch : P.batch x.tableIndex x.offset with
    | nil =>
      have hpos := P.batchSize_pos
      rw [hbatch, length_nil] at hlength
      omega
    | cons r rest =>
      refine ⟨{ x with phase := .writing (r :: rest) }, ?_, rfl, ?_⟩
      · simp [proceedCopy, hphase, hbatch]
      · simp only [ahead, remaining, hphase]
        omega
  | writing rows =>
    obtain ⟨hpersisted, hposition, hmore, rfl⟩ := hphased
    obtain ⟨hat, haligned⟩ := h.at hpersisted
    rw [hposition] at hat haligned
    have hallowed := insertAllowed_batch hordered hat haligned hmore
    have hlength := length_batch (P := P) x.tableIndex x.offset
    have hpos := P.batchSize_pos
    refine ⟨{ x with
      offset := x.offset + (P.batch x.tableIndex x.offset).length
      checkpoint := ⟨x.tableIndex, x.offset + (P.batch x.tableIndex x.offset).length⟩
      phase := .recording (P.batch x.tableIndex x.offset) }, ?_, rfl, ?_⟩
    · simp [proceedCopy, hphase, hallowed]
    · simp only [ahead, remaining, hphase]
      omega
  | recording rows =>
    refine ⟨{ x with phase := .committing rows }, ?_, rfl, ?_⟩
    · simp [proceedCopy, hphase]
    · simp only [ahead, remaining, hphase]
      omega
  | committing rows =>
    refine ⟨{ x with
      target := Function.update x.target x.tableIndex (x.target x.tableIndex ++ rows)
      persisted := some x.checkpoint
      phase := .committed }, ?_, rfl, ?_⟩
    · simp [proceedCopy, hphase]
    · simp only [ahead, remaining, hphase]
      omega
  | committed =>
    obtain ⟨hle, hphase'⟩ := ahead_loop (P := P) (x := x)
    refine ⟨x.loop P, ?_, hphase', ?_⟩
    · simp [proceedCopy, hphase]
    · have hahead : x.ahead P = 6 * x.remaining P + 3 * (P.tables.length - x.tableIndex) + 7 := by
        simp only [ahead, hphase]
      omega
  | leaving =>
    obtain ⟨-, -, hend⟩ := hphased
    have hahead : x.ahead P = 6 * x.remaining P + 3 * (P.tables.length - x.tableIndex) + 6 := by
      simp only [ahead, hphase]
    refine ⟨{ x with persisted := some x.checkpoint }.enter P (x.tableIndex + 1) 0, ?_, ahead_enter.2, ?_⟩
    · simp [proceedCopy, hphase]
    · rw [hahead]
      unfold CopyState.enter
      split_ifs with hmore
      · have hdrop := rows_drop (P := P) hmore
        simp only [ahead, remaining]
        omega
      · simp only [ahead]
        omega
  | resetting =>
    refine ⟨{ x with checkpoint := ⟨P.tables.length, 0⟩, phase := .sealing }, ?_, rfl, ?_⟩
    · simp [proceedCopy, hphase]
    · simp only [ahead, hphase]
      omega
  | sealing =>
    refine ⟨{ x with persisted := some x.checkpoint, phase := .verifying }, ?_, rfl, ?_⟩
    · simp [proceedCopy, hphase]
    · simp only [ahead, hphase]
      omega
  | verifying =>
    obtain ⟨hat, hposition⟩ := hphased
    have hcounts : ∀ t < P.tables.length, (x.target t).length = (P.rows t).length := by
      intro t ht
      rw [hat t, hposition]
      simp [copied, ht]
    refine ⟨{ x with
      phase := .refreshingRows (∀ t < P.tables.length, (x.target t).length = (P.rows t).length) }, ?_,
      decide_eq_true hcounts, ?_⟩
    · simp [proceedCopy, hphase]
    · simp only [ahead, hphase]
      omega
  | refreshingRows ready =>
    refine ⟨{ x with phase := .reporting ready }, ?_, hsmooth, ?_⟩
    · simp [proceedCopy, hphase]
    · simp only [ahead, hphase]
      omega
  | reporting ready =>
    refine ⟨{ x with persisted := some x.checkpoint, phase := .ended ready }, ?_, hsmooth, ?_⟩
    · simp [proceedCopy, hphase]
    · simp only [ahead, hphase]
      omega
  | idle | ended ready =>
    rw [hphase] at hover
    cases hover
  | failing ahead =>
    cases hsmooth

/-- Nothing fails. -/
def Unfailing (_ : CopyState ρ) (a : CopyAct) : Prop := a = .proceed true

/-- **A run in which nothing fails copies what is left.** -/
theorem Resumable.finishes (h : Resumable P x) (hordered : P.Ordered) (hover : x.phase.over) :
    ∃ x₁ x', stepCopy P x .run = some x₁ ∧ Lts.Reach (databaseCopy P) Unfailing x₁ x' ∧ x'.phase = .ended true ∧
      ∀ t, x'.target t = P.rows t := by
  have hrun : stepCopy P x .run = some { x with phase := .preparing } := if_pos hover
  have hbegun : Resumable P { x with phase := .preparing } := h.turn rfl rfl trivial
  have hprogress : ∀ y : CopyState ρ, Resumable P y ∧ y.phase.smooth → ¬ y.phase.over →
      ∃ a y', Unfailing y a ∧ (databaseCopy P).step y a = some y' ∧ (Resumable P y' ∧ y'.phase.smooth) ∧
        y'.ahead P < y.ahead P := by
    rintro y ⟨hy, hsmooth⟩ hmore
    obtain ⟨y', hstep, hsmooth', hlt⟩ := hy.progress hordered hsmooth (Bool.eq_false_iff.mpr hmore)
    have hguard : NotAhead y (.proceed true) := by
      unfold NotAhead
      cases hphase : y.phase with
      | failing ahead =>
        rw [hphase] at hsmooth
        cases hsmooth
      | _ => trivial
    exact ⟨.proceed true, y', rfl, hstep, ⟨hy.proceed hguard hstep, hsmooth'⟩, hlt⟩
  obtain ⟨x', hreach, ⟨hx', hsmooth⟩, hend⟩ := Lts.reach_of_progress (ahead P) hprogress ⟨hbegun, rfl⟩
  refine ⟨_, x', hrun, hreach, ?_⟩
  have hphased := hx'.phased
  cases hphase : x'.phase with
  | ended ready =>
    rw [hphase] at hsmooth
    obtain rfl : ready = true := hsmooth
    simp only [CopyState.Phased, hphase] at hphased
    refine ⟨rfl, fun t => ?_⟩
    rw [hphased t]
    by_cases ht : t < P.tables.length
    · simp [copied, ht]
    · rw [rows_of_le (Nat.not_lt.mp ht), take_nil]
  | idle =>
    rw [hphase] at hsmooth
    cases hsmooth
  | _ =>
    rw [hphase] at hend
    cases hend

end

/-- **Resumable copies.** From a source whose rows refer to what is copied before them, and in every run whose failure
handler does not write a checkpoint that is ahead: between two steps the target is as its checkpoint says, and whenever
no run is under way one in which nothing fails copies the source. -/
theorem copy_resumable (P : CopyPlan ρ κ) (hordered : P.Ordered) (x : CopyState ρ)
    (h : Lts.Reach (databaseCopy P) NotAhead .start x) :
    x.Mirrors P ∧ (x.phase.over → ∃ x₁ x', stepCopy P x .run = some x₁ ∧
      Lts.Reach (databaseCopy P) Unfailing x₁ x' ∧ x'.phase = .ended true ∧ ∀ t, x'.target t = P.rows t) := by
  have hresumable : Resumable P x := h.induct (I := Resumable P) .start fun hx hg hstep => hx.step hg hstep
  exact ⟨hresumable.mirrors, hresumable.finishes hordered⟩

/-- The `folders` of a source, by id and parent, in batches of one. -/
def foldersPlan (rows : List (ℕ × Option ℕ)) (unique : rows.Pairwise fun r r' => r.1 ≠ r'.1)
    (linked : ∀ r ∈ rows, ∀ p ∈ r.2, ∃ x ∈ rows, p = x.1) : CopyPlan (ℕ × Option ℕ) ℕ where
  backend := .sqlite
  batchSize := 1
  tables := [rows]
  keys := fun r => [r.1]
  references := fun r => r.2.toList.map fun p => (0, p)
  batchSize_pos := Nat.one_pos
  unique := by
    intro l hl
    obtain rfl := mem_singleton.mp hl
    refine unique.imp fun hne k hk hk' => hne ?_
    exact (mem_singleton.mp hk).symm.trans (mem_singleton.mp hk')
  linked := by
    intro l hl r hr ref href
    obtain rfl := mem_singleton.mp hl
    obtain ⟨p, hp, rfl⟩ := List.mem_map.mp href
    obtain ⟨x, hx, heq⟩ := linked r hr p (mem_toList.mp hp)
    exact ⟨x, hx, by rw [heq]; exact mem_singleton_self _⟩

/-- A folder in an older one. -/
def nestedPlan : CopyPlan (ℕ × Option ℕ) ℕ := foldersPlan [(1, none), (2, some 1)] (by decide) (by decide)

theorem nestedPlan_ordered : nestedPlan.Ordered := by
  intro t j r hr ref href
  match t, j with
  | 0, 0 =>
    cases hr
    cases href
  | 0, 1 =>
    cases hr
    obtain rfl := mem_singleton.mp href
    exact ⟨0, (1, none), rfl, mem_singleton_self _, .inr ⟨rfl, Nat.zero_le _⟩⟩
  | 0, _ + 2 => cases hr
  | _ + 1, _ => cases hr

/-- The first run, up to the commit of its first batch, which fails. -/
def failedCommit : List CopyAct := .run :: List.replicate 9 (.proceed true) ++ [.proceed false]

/-- The handler fails as well, and the next run copies both folders. -/
theorem copy_resumable_nested :
    ∃ x, Lts.Reach (databaseCopy nestedPlan) NotAhead .start x ∧ x.persisted = some ⟨0, 0⟩ ∧ x.Mirrors nestedPlan ∧
      ∃ x₁ x', stepCopy nestedPlan x .run = some x₁ ∧ Lts.Reach (databaseCopy nestedPlan) Unfailing x₁ x' ∧
        x'.phase = .ended true ∧ ∀ t, x'.target t = nestedPlan.rows t := by
  have hrun : ((databaseCopy nestedPlan).run NotAhead (failedCommit ++ [.proceed false]) .start).map
      (fun x => (x.persisted, x.phase.over)) = some (some ⟨0, 0⟩, true) := by
    decide
  obtain ⟨x, hrun, hpersisted, hover⟩ := map_pair_eq_some hrun
  have hreach := Lts.reach_of_run hrun
  obtain ⟨hmirrors, hfinishes⟩ := copy_resumable nestedPlan nestedPlan_ordered x hreach
  exact ⟨x, hreach, hpersisted, hmirrors, hfinishes hover⟩

/-- The commit fails, and the handler writes that one row is there. -/
theorem rows_skipped : ∃ x, Lts.Reach (databaseCopy nestedPlan) Lts.free .start x ∧ ¬ x.Mirrors nestedPlan := by
  have hrun : ((databaseCopy nestedPlan).run Lts.free (failedCommit ++ [.proceed true]) .start).map
      (fun x => (x.target 0, x.persisted)) = some ([], some ⟨0, 1⟩) := by
    decide
  obtain ⟨x, hrun, htarget, hpersisted⟩ := map_pair_eq_some hrun
  refine ⟨x, Lts.reach_of_run hrun, fun hmirrors => ?_⟩
  unfold CopyState.Mirrors at hmirrors
  rw [hpersisted] at hmirrors
  have hzero := hmirrors 0
  rw [htarget] at hzero
  cases hzero

end AsterDrive.Cli
