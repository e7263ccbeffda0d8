import AsterDrive.Tasks.Fencing

/-!
# Tasks/Scratch — scratch directories, and who removes them

A worker keeps its scratch under the temp directory of its task, in a directory of its own for each
lease. Three parties remove: the worker its own directory, a manual retry the whole directory of the
task before it resets the row, and the periodic cleaner the directories of tasks that are finished and
expired or gone.

The retry and the cleaner read the row, decide, and remove in separate steps. If somebody else retries
the task in between, the row can be claimed again and the directory of the new lease is removed
(`retry_removes_live_scratch`). That is the only way (`scratch_kept_of_undisturbed`). The ghost `resets`
counts the manual retries of each task that went through.
-/

namespace AsterDrive.Tasks

open Interleave List Option Function BackgroundTaskStatus Statement

/-- `server.temp_dir`, and the temp directory of offline downloads where it is another one. -/
inductive TempRoot
  | server | offlineDownload
  deriving DecidableEq

/-- A scratch directory: the root, the task and the token of the lease. -/
structure ScratchDir where
  root : TempRoot
  taskId : ℕ
  processingToken : ℕ
  deriving DecidableEq

/-- The roots that `cleanup_task_temp_dir_for_task_kind` goes through. -/
def tempRootsOfKind (offlineRootConfigured : Bool) (kind : BackgroundTaskKind) : List TempRoot :=
  .server :: if kind = .offlineDownload ∧ offlineRootConfigured then [.offlineDownload] else []

/-- The removal of the directory of a task. -/
def removeTaskDir (dirs : List ScratchDir) (root : TempRoot) (taskId : ℕ) : List ScratchDir :=
  dirs.filter fun d => !(decide (d.root = root) && decide (d.taskId = taskId))

/-- Whether `cleanup_expired_in_root` removes the directory of a task, by what it found of its row. -/
def shouldCleanup (now : ℕ) : Option BackgroundTask → Bool
  | some task => decide (task.expiresAt ≤ now) && task.status.isTerminal
  | none => true

structure Workbench where
  tasks : BackgroundTasks
  now : ℕ := 0
  dirs : List ScratchDir := []
  resets : ℕ → ℕ := fun _ => 0

/-- Who is at what. `seen` is what the ghost showed when the row was read. -/
inductive Party
  | idle
  /-- a worker with the lease that its claim returned -/
  | worker (taskId processingToken : ℕ)
  /-- `retry_task_record`, after its checks: the roots that it still has to clean -/
  | retrying (taskId : ℕ) (roots : List TempRoot) (seen : ℕ)
  /-- `cleanup_expired_in_root`: the entries that are left -/
  | cleaning (root : TempRoot) (now : ℕ) (entries : List ℕ)
  /-- the same, about to remove the directory of a task -/
  | removing (root : TempRoot) (now taskId seen : ℕ) (entries : List ℕ)
  deriving DecidableEq

inductive ScratchAct
  | claim (id expected now leaseExpiresAt : ℕ)
  | makeScratch (root : TempRoot)
  | removeOwnScratch (root : TempRoot)
  | readForRetry (id : ℕ)
  | removeForRetry
  | reset (now : ℕ) (maxAttempts : ℤ) (stepsJson : Option String)
  | listRoot (root : TempRoot)
  | visitEntry
  | removeEntry
  | leave
  | statement (s : Statement)
  | create (row : BackgroundTask)
  | cleanupRows (filters : TerminalTaskCleanupFilters)
  | advance (now : ℕ)

section System

variable (nextToken : ℕ → Option ℕ) (offlineRootConfigured : Bool)

/-- The statements that are steps of their own: not the claims and not the resets. -/
def isPlain : Statement → Bool
  | .claim _ _ _ _ | .manualRetry _ _ _ _ => false
  | _ => true

/-- One statement or one removal. -/
def scratchStep (a : ScratchAct) (s : Workbench) (p : Party) : Option (Workbench × Party) :=
  match a, p with
  | .claim id expected now leaseExpiresAt, .idle =>
    match (Statement.claim id expected now leaseExpiresAt).exec nextToken s.tasks, nextToken expected with
    | (true, tasks), some next => some ({ s with tasks }, .worker id next)
    | _, _ => some (s, .idle)
  | .makeScratch root, .worker taskId processingToken =>
    some ({ s with dirs := ⟨root, taskId, processingToken⟩ :: s.dirs }, p)
  | .removeOwnScratch root, .worker taskId processingToken =>
    some ({ s with dirs := s.dirs.filter fun d => d ≠ ⟨root, taskId, processingToken⟩ }, p)
  | .readForRetry id, .idle =>
    match s.tasks.get id with
    | some task =>
      if taskCanRetry task then
        some (s, .retrying id (tempRootsOfKind offlineRootConfigured task.kind) (s.resets id))
      else some (s, .idle)
    | none => some (s, .idle)
  | .removeForRetry, .retrying taskId (root :: rest) seen =>
    some ({ s with dirs := removeTaskDir s.dirs root taskId }, .retrying taskId rest seen)
  | .reset now maxAttempts stepsJson, .retrying taskId [] _ =>
    match (Statement.manualRetry taskId now maxAttempts stepsJson).exec nextToken s.tasks with
    | (true, tasks) =>
      some ({ s with tasks, resets := Function.update s.resets taskId (s.resets taskId + 1) }, .idle)
    | (false, _) => some (s, .idle)
  | .listRoot root, .idle =>
    some (s, .cleaning root s.now (((s.dirs.filter fun d => d.root = root).map ScratchDir.taskId).dedup))
  | .visitEntry, .cleaning root now (taskId :: entries) =>
    if shouldCleanup now (s.tasks.get taskId) then
      some (s, .removing root now taskId (s.resets taskId) entries)
    else some (s, .cleaning root now entries)
  | .removeEntry, .removing root now taskId _ entries =>
    some ({ s with dirs := removeTaskDir s.dirs root taskId }, .cleaning root now entries)
  | .leave, _ => some (s, .idle)
  | .statement st, p => if isPlain st then some ({ s with tasks := (st.exec nextToken s.tasks).2 }, p) else none
  | .create row, p => some ({ s with tasks := s.tasks.insert row.unclaimed row.unclaimed_id }, p)
  | .cleanupRows filters, p => some ({ s with tasks := cleanupTasksForAdmin s.tasks filters }, p)
  | .advance now, p => some ({ s with now := max s.now now }, p)
  | _, _ => none

/-- Any number of workers, retry requests and cleaner passes. -/
def workbench : System Workbench Party ScratchAct where
  step := scratchStep nextToken offlineRootConfigured

end System

/-- The directory belongs to the current lease of a task that is being processed. -/
def LiveScratch (s : Workbench) (d : ScratchDir) : Prop :=
  ∃ r, s.tasks.get d.taskId = some r ∧ r.status = .processing ∧ r.processingToken = d.processingToken

/-- A step of `p` removes live scratch of somebody else. -/
def RemovesLiveScratch (s s' : Workbench) (p : Party) : Prop :=
  ∃ d ∈ s.dirs, d ∉ s'.dirs ∧ LiveScratch s d ∧ p ≠ .worker d.taskId d.processingToken

/-- Nobody retried the task between the read of the row and the removal. -/
def Undisturbed (s : Workbench) : Party → ScratchAct → Prop
  | .retrying taskId _ seen, .removeForRetry => s.resets taskId = seen
  | .removing _ _ taskId seen _, .removeEntry => s.resets taskId = seen
  | _, _ => True

instance (s : Workbench) : (p : Party) → (a : ScratchAct) → Decidable (Undisturbed s p a) := fun p a => by
  unfold Undisturbed
  split <;> infer_instance

/-! ### A finished task stays finished, unless it is retried -/

section

variable {nextToken : ℕ → Option ℕ} {offlineRootConfigured : Bool} {st : Statement} {r r' : BackgroundTask}
variable {s s' : Workbench} {p p' q : Party} {a : ScratchAct}

theorem RowStep.terminal (h : RowStep nextToken st r r') (hreset : ∀ i n m j, st ≠ .manualRetry i n m j)
    (hterm : r.status.isTerminal = true) : r'.status.isTerminal = true := by
  cases h with
  | claim hn hclaimable htoken =>
    cases hs : r.status <;> simp [hs, claimable, processingStale, isTerminal] at hclaimable hterm
  | keep _ _ _ hstatus | cancelRunning hstatus => simp [hstatus, isTerminal] at hterm
  | finish _ _ _ hstatus =>
    rcases hstatus with ⟨hstatus, -⟩ | ⟨hstatus, -⟩
    all_goals simp [hstatus, isTerminal] at hterm
  | cancelQueued _ hstatus' | refresh _ hstatus' => simp [hstatus', isTerminal]
  | reset => exact absurd rfl (hreset _ _ _ _)

/-- What a step does to the rows, for whoever has read them. -/
structure Watched (s s' : Workbench) : Prop where
  next : s.tasks.next ≤ s'.tasks.next
  resets : ∀ i, s.resets i ≤ s'.resets i
  rows : ∀ i r', i < s.tasks.next → s'.tasks.get i = some r' → ∃ r, s.tasks.get i = some r ∧
    (r.status.isTerminal = true → r'.status.isTerminal = true ∨ s.resets i < s'.resets i)

theorem Watched.of_tasks (htasks : s'.tasks = s.tasks) (hresets : s'.resets = s.resets) : Watched s s' where
  next := by rw [htasks]
  resets i := by rw [hresets]
  rows i r' _ h := ⟨r', htasks ▸ h, fun ht => .inl ht⟩

theorem Watched.of_exec (hreset : ∀ i n m j, st ≠ .manualRetry i n m j)
    (htasks : s'.tasks = (st.exec nextToken s.tasks).2) (hresets : s'.resets = s.resets) : Watched s s' where
  next := by rw [htasks, exec_next]
  resets i := by rw [hresets]
  rows i r' _ h := by
    rw [htasks] at h
    obtain ⟨r, hr, rfl | hstep⟩ := get_exec_some h
    · exact ⟨r', hr, fun ht => .inl ht⟩
    · exact ⟨r, hr, fun ht => .inl (hstep.terminal hreset ht)⟩

theorem Watched.of_reset {taskId now : ℕ} {maxAttempts : ℤ} {stepsJson : Option String}
    (htasks : s'.tasks = ((Statement.manualRetry taskId now maxAttempts stepsJson).exec nextToken s.tasks).2)
    (hresets : s'.resets = Function.update s.resets taskId (s.resets taskId + 1)) : Watched s s' where
  next := by rw [htasks, exec_next]
  resets i := by
    rw [hresets]
    by_cases hi : i = taskId
    · subst hi
      simp
    · simp [update_of_ne hi]
  rows i r' _ h := by
    rw [htasks] at h
    obtain ⟨r, hr, rfl | hstep⟩ := get_exec_some h
    · exact ⟨r', hr, fun ht => .inl ht⟩
    · refine ⟨r, hr, fun _ => .inr ?_⟩
      cases hstep with
      | reset =>
        rw [hresets, Table.key_of_get hr]
        simp
      | keep hlease | finish hlease => cases hlease

theorem watched_of_step (h : scratchStep nextToken offlineRootConfigured a s p = some (s', p')) : Watched s s' := by
  unfold scratchStep at h
  split at h
  · rename_i id expected now lease
    split at h
    · rename_i tasks next hexec hnext
      cases h
      have htasks : tasks = ((claim id expected now lease).exec nextToken s.tasks).2 := by rw [hexec]
      exact .of_exec (by simp) htasks rfl
    · cases h
      exact .of_tasks rfl rfl
  · cases h
    exact .of_tasks rfl rfl
  · cases h
    exact .of_tasks rfl rfl
  · split at h
    · split_ifs at h
      all_goals
        cases h
        exact .of_tasks rfl rfl
    · cases h
      exact .of_tasks rfl rfl
  · cases h
    exact .of_tasks rfl rfl
  · split at h
    · rename_i tasks hexec
      cases h
      exact .of_reset (by rw [hexec]) rfl
    · cases h
      exact .of_tasks rfl rfl
  · cases h
    exact .of_tasks rfl rfl
  · split_ifs at h
    all_goals
      cases h
      exact .of_tasks rfl rfl
  · cases h
    exact .of_tasks rfl rfl
  · cases h
    exact .of_tasks rfl rfl
  · split_ifs at h with hplain
    cases h
    refine .of_exec (fun i n m j heq => ?_) rfl rfl
    rw [heq] at hplain
    cases hplain
  · rename_i row
    cases h
    refine ⟨Nat.le_succ _, fun _ => le_rfl, fun i r' hi hr' => ?_⟩
    have hid : ∀ n, (row.unclaimed n).id = n := fun _ => rfl
    replace hr' := (SerialTable.get_insert s.tasks hid i).symm.trans hr'
    rw [if_neg hi.ne'] at hr'
    exact ⟨r', hr', fun ht => .inl ht⟩
  · cases h
    refine ⟨?_, fun _ => le_rfl, fun i r' _ hr' => ⟨r', get_cleanup hr', fun ht => .inl ht⟩⟩
    show s.tasks.next ≤ (cleanupTasksForAdmin s.tasks _).next
    unfold cleanupTasksForAdmin
    split_ifs <;> exact le_rfl
  · cases h
    exact .of_tasks rfl rfl
  · cases h

/-! ### The invariant -/

/-- The row was finished when it was read, and is so still unless somebody retried the task. -/
def Settled (s : Workbench) (taskId seen : ℕ) : Prop :=
  taskId < s.tasks.next ∧ seen ≤ s.resets taskId ∧
    (s.resets taskId = seen → ∀ r, s.tasks.get taskId = some r → r.status.isTerminal = true)

/-- What a party knows. -/
def Party.Knows (s : Workbench) : Party → Prop
  | .idle => True
  | .worker taskId _ => taskId < s.tasks.next
  | .retrying taskId _ seen => Settled s taskId seen
  | .cleaning _ _ entries => ∀ i ∈ entries, i < s.tasks.next
  | .removing _ _ taskId seen entries => Settled s taskId seen ∧ ∀ i ∈ entries, i < s.tasks.next

/-- Every directory is of a task that there is, or was. -/
def DirsKnown (s : Workbench) : Prop := ∀ d ∈ s.dirs, d.taskId < s.tasks.next

theorem Settled.watched {taskId seen : ℕ} (h : Settled s taskId seen) (hw : Watched s s') : Settled s' taskId seen := by
  obtain ⟨hlt, hle, hterm⟩ := h
  have hgrow := hw.resets taskId
  refine ⟨hlt.trans_le hw.next, hle.trans hgrow, fun hsame r' hr' => ?_⟩
  obtain ⟨r, hr, hkeep⟩ := hw.rows taskId r' hlt hr'
  rcases hkeep (hterm (by omega) r hr) with ht | hlt'
  · exact ht
  · omega

theorem Party.Knows.watched (h : q.Knows s) (hw : Watched s s') : q.Knows s' := by
  cases q with
  | idle => trivial
  | worker taskId token => exact lt_of_lt_of_le h hw.next
  | retrying taskId roots seen => exact Settled.watched h hw
  | cleaning root now entries => exact fun i hi => (h i hi).trans_le hw.next
  | removing root now taskId seen entries =>
    exact ⟨Settled.watched h.1 hw, fun i hi => (h.2 i hi).trans_le hw.next⟩

theorem settled_of_terminal {taskId : ℕ} (hlt : taskId < s.tasks.next)
    (h : ∀ r, s.tasks.get taskId = some r → r.status.isTerminal = true) :
    Settled s taskId (s.resets taskId) := ⟨hlt, le_rfl, fun _ => h⟩

theorem taskCanRetry_terminal (h : taskCanRetry r = true) : r.status.isTerminal = true := by
  unfold taskCanRetry at h
  cases hs : r.status <;> simp [hs, isTerminal] at h ⊢

theorem shouldCleanup_terminal {now : ℕ} {found : Option BackgroundTask} (h : shouldCleanup now found = true)
    (hr : found = some r) : r.status.isTerminal = true := by
  subst hr
  exact (Bool.and_eq_true_iff.mp h).2

theorem knows_of_step (hdirs : DirsKnown s) (hknows : p.Knows s)
    (h : scratchStep nextToken offlineRootConfigured a s p = some (s', p')) :
    DirsKnown s' ∧ p'.Knows s' := by
  have hw := watched_of_step h
  have hkeep : s'.dirs = s.dirs → DirsKnown s' := fun heq d hd => (hdirs d (heq ▸ hd)).trans_le hw.next
  have hsub : (∀ d ∈ s'.dirs, d ∈ s.dirs) → DirsKnown s' := fun hsub d hd =>
    (hdirs d (hsub d hd)).trans_le hw.next
  have hsame : p'.Knows s → p'.Knows s' := fun hp => hp.watched hw
  unfold scratchStep at h
  split at h
  · rename_i id expected now lease
    split at h
    · rename_i tasks next hexec hnext
      cases h
      refine ⟨hkeep rfl, hsame ?_⟩
      have hhit : ((claim id expected now lease).exec nextToken s.tasks).1 = true := by rw [hexec]
      obtain ⟨r, r', hr, -, hstep⟩ := exec_hit hhit
      have hlt := SerialTable.lt_next_of_get hr
      cases hstep with
      | claim => exact hlt
      | keep hlease | finish hlease => cases hlease
    · cases h
      exact ⟨hdirs, trivial⟩
  · cases h
    refine ⟨fun d hd => ?_, hknows⟩
    rcases mem_cons.mp hd with rfl | hd
    · exact hknows
    · exact hdirs d hd
  · cases h
    exact ⟨hsub fun d hd => (mem_filter.mp hd).1, hknows⟩
  · split at h
    · rename_i task hget
      split_ifs at h with hretry
      · cases h
        refine ⟨hdirs, settled_of_terminal (SerialTable.lt_next_of_get hget) fun r hr => ?_⟩
        obtain rfl := some.inj (hget.symm.trans hr)
        exact taskCanRetry_terminal hretry
      · cases h
        exact ⟨hdirs, trivial⟩
    · cases h
      exact ⟨hdirs, trivial⟩
  · cases h
    exact ⟨hsub fun d hd => (mem_filter.mp hd).1, hsame hknows⟩
  · split at h
    · cases h
      exact ⟨hkeep rfl, trivial⟩
    · cases h
      exact ⟨hdirs, trivial⟩
  · cases h
    refine ⟨hdirs, fun i hi => ?_⟩
    obtain ⟨d, hd, rfl⟩ := List.mem_map.mp (mem_dedup.mp hi)
    exact hdirs d (mem_filter.mp hd).1
  · rename_i root now taskId entries
    have hlt : taskId < s.tasks.next := hknows taskId mem_cons_self
    have hrest : ∀ i ∈ entries, i < s.tasks.next := fun i hi => hknows i (mem_cons_of_mem _ hi)
    split_ifs at h with hclean
    · cases h
      exact ⟨hdirs, settled_of_terminal hlt fun r hr => shouldCleanup_terminal hclean hr, hrest⟩
    · cases h
      exact ⟨hdirs, hrest⟩
  · cases h
    exact ⟨hsub fun d hd => (mem_filter.mp hd).1, hsame hknows.2⟩
  · cases h
    exact ⟨hdirs, trivial⟩
  · split_ifs at h
    cases h
    exact ⟨hkeep rfl, hsame hknows⟩
  · cases h
    exact ⟨hkeep rfl, hsame hknows⟩
  · cases h
    exact ⟨hkeep rfl, hsame hknows⟩
  · cases h
    exact ⟨hkeep rfl, hsame hknows⟩
  · cases h

/-- The directories that the removal of a task's directory takes are not live, if its row is finished. -/
theorem not_live_of_removed {root : TempRoot} {taskId seen : ℕ} {d : ScratchDir} (hset : Settled s taskId seen)
    (hsame : s.resets taskId = seen) (hd : d ∈ s.dirs) (hgone : d ∉ removeTaskDir s.dirs root taskId) :
    ¬ LiveScratch s d := by
  rintro ⟨r, hr, hstatus, -⟩
  have hid : d.taskId = taskId := by
    by_contra hne
    exact hgone (mem_filter.mpr ⟨hd, by simp [hne]⟩)
  have hterm := hset.2.2 hsame r (hid ▸ hr)
  simp [hstatus, isTerminal] at hterm

theorem no_live_removed (hknows : p.Knows s) (hund : Undisturbed s p a)
    (h : scratchStep nextToken offlineRootConfigured a s p = some (s', p')) : ¬ RemovesLiveScratch s s' p := by
  rintro ⟨d, hd, hgone, hlive, hother⟩
  have hkept : ∀ {p : Prop}, s'.dirs = s.dirs → p := fun heq => absurd (heq ▸ hd) hgone
  unfold scratchStep at h
  split at h
  · split at h
    all_goals
      cases h
      exact hkept rfl
  · cases h
    exact hgone (mem_cons_of_mem _ hd)
  · rename_i root taskId token
    cases h
    refine hgone (mem_filter.mpr ⟨hd, ?_⟩)
    rw [decide_eq_true_eq]
    rintro rfl
    exact hother rfl
  · split at h
    · split_ifs at h
      all_goals
        cases h
        exact hkept rfl
    · cases h
      exact hkept rfl
  · cases h
    exact not_live_of_removed hknows hund hd hgone hlive
  · split at h
    all_goals
      cases h
      exact hkept rfl
  · cases h
    exact hkept rfl
  · split_ifs at h
    all_goals
      cases h
      exact hkept rfl
  · cases h
    exact not_live_of_removed hknows.1 hund hd hgone hlive
  · cases h
    exact hkept rfl
  · split_ifs at h
    cases h
    exact hkept rfl
  · cases h
    exact hkept rfl
  · cases h
    exact hkept rfl
  · cases h
    exact hkept rfl
  · cases h

/-- **Live scratch is removed by nobody else**, in every run in which no task is retried between the read
of its row and the removal of its directory. -/
theorem scratch_kept_of_undisturbed {t : BackgroundTasks} {now : ℕ} {dirs : List ScratchDir}
    (hdirs : ∀ d ∈ dirs, d.taskId < t.next) {c c' : Config Workbench Party} {i : ℕ}
    (h : Reach (workbench nextToken offlineRootConfigured) Undisturbed ⟨{ tasks := t, now, dirs }, fun _ => .idle⟩ c)
    (hg : Undisturbed c.shared (c.proc i) a)
    (hf : (workbench nextToken offlineRootConfigured).fire c i a = some c') :
    ¬ RemovesLiveScratch c.shared c'.shared (c.proc i) := by
  have hall : Holds DirsKnown (fun s p => p.Knows s) (fun _ _ => True) c := by
    refine h.owicki (fun hI hA _ hstep => knows_of_step hI hA hstep)
      (fun _ _ hq _ _ _ hstep => ⟨hq.watched (watched_of_step hstep), trivial, trivial⟩) ?_
    exact ⟨hdirs, fun _ => trivial, fun _ _ _ => trivial⟩
  obtain ⟨s', p', hstep, rfl⟩ := fire_eq_some hf
  exact no_live_removed (hall.each i) hg hstep

end

/-! A task that failed, with the scratch of its attempt. -/

def failedTask : BackgroundTasks where
  rows :=
    [{ id := 1, kind := .archiveExtract, status := .failed, creatorUserId := some 7, teamId := none
       displayName := "extract", payloadJson := "", maxAttempts := 3, nextRunAt := 0, processingToken := 1
       expiresAt := 100, createdAt := 0, updatedAt := 0 }]
  unique := by decide
  next := 2
  below := by decide

def failedStart : Config Workbench Party := ⟨{ tasks := failedTask, dirs := [⟨.server, 1, 1⟩] }, fun _ => .idle⟩

/-- One retry removes what the failed attempt left. -/
theorem scratch_kept_single_retry : ∃ c c', Reach (workbench (fun t => some (t + 1)) false) Undisturbed failedStart c ∧
      (workbench (fun t => some (t + 1)) false).fire c 0 .removeForRetry = some c' ∧
      (c.shared.dirs, c'.shared.dirs) = ([⟨.server, 1, 1⟩], []) ∧
      ¬ RemovesLiveScratch c.shared c'.shared (c.proc 0) := by
  have hrun : ((workbench (fun t => some (t + 1)) false).run Undisturbed failedStart [(0, .readForRetry 1)]).map
      (fun c => (c.proc 0, c.shared.resets 1)) = some (.retrying 1 [.server] 0, 0) := by
    decide
  obtain ⟨c, hc, hstate⟩ := map_eq_some_iff.mp hrun
  have hreach := run_reach hc
  obtain ⟨hproc, hresets⟩ := Prod.mk.inj hstate
  have hshared : c.shared.dirs = [⟨.server, 1, 1⟩] := by
    have h : ((workbench (fun t => some (t + 1)) false).run Undisturbed failedStart [(0, .readForRetry 1)]).map
        (fun c => c.shared.dirs) = some [⟨.server, 1, 1⟩] := by decide
    rw [hc] at h
    exact some.inj h
  have hf : (workbench (fun t => some (t + 1)) false).fire c 0 .removeForRetry =
      some ⟨{ c.shared with dirs := removeTaskDir c.shared.dirs .server 1 },
        Function.update c.proc 0 (.retrying 1 [] 0)⟩ := by
    unfold System.fire
    rw [hproc]
    rfl
  have hund : Undisturbed c.shared (c.proc 0) .removeForRetry := by
    rw [hproc]
    exact hresets
  refine ⟨c, _, hreach, hf, ?_, scratch_kept_of_undisturbed (by decide) hreach hund hf⟩
  rw [hshared]
  rfl

/-- Two users retry a task that failed. The second one has read the row before the first one resets it,
and removes the directory after the task was claimed again. -/
theorem retry_removes_live_scratch : ∃ c c', Reach (workbench (fun t => some (t + 1)) false) free failedStart c ∧
      (workbench (fun t => some (t + 1)) false).fire c 1 .removeForRetry = some c' ∧
      RemovesLiveScratch c.shared c'.shared (c.proc 1) := by
  let schedule : List (ℕ × ScratchAct) :=
    [(0, .readForRetry 1), (1, .readForRetry 1), (0, .removeForRetry), (0, .reset 10 3 none),
      (2, .claim 1 1 10 70), (2, .makeScratch .server)]
  have hrun : ((workbench (fun t => some (t + 1)) false).run free failedStart schedule).map
      (fun c => (c.proc 1, c.shared.dirs, (c.shared.tasks.get 1).map fun r => (r.status, r.processingToken))) =
      some (.retrying 1 [.server] 0, [⟨.server, 1, 2⟩], some (.processing, 2)) := by
    decide
  obtain ⟨c, hc, hproc, hrest⟩ := map_pair_eq_some hrun
  obtain ⟨hdirs, hrow⟩ := Prod.mk.inj hrest
  obtain ⟨r, hr, hstatus, htoken⟩ := map_pair_eq_some hrow
  have hf : (workbench (fun t => some (t + 1)) false).fire c 1 .removeForRetry =
      some ⟨{ c.shared with dirs := removeTaskDir c.shared.dirs .server 1 },
        Function.update c.proc 1 (.retrying 1 [] 0)⟩ := by
    unfold System.fire
    rw [hproc]
    rfl
  refine ⟨c, _, run_reach hc, hf, ⟨.server, 1, 2⟩, by simp [hdirs], ?_, ⟨r, hr, hstatus, htoken⟩, ?_⟩
  · show _ ∉ removeTaskDir c.shared.dirs .server 1
    simp [hdirs, removeTaskDir]
  · simp [hproc]

end AsterDrive.Tasks
