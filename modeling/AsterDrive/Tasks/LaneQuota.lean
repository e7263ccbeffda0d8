import AsterDrive.Tasks.Fencing
import Mathlib.Data.List.Sort

/-!
# Tasks/LaneQuota — the cluster limit of a lane

`dispatch/claim.rs`. A node that wants tasks of a lane locks the lane's configuration row, reads the
clock, counts the leases of the lane that have not expired, and claims at most as many tasks as the
limit leaves. Other nodes write in between; what a transaction claims is seen when it commits.

The count is of leases that run. `touch_heartbeat` and `mark_progress` ask for the status and the token
and not whether the lease still runs, so a worker that wakes up late gets its lease back although its
place was given away (`lane_quota_exceeded_by_late_heartbeat`). As long as no lease is renewed that has
run out, the limit holds (`lane_quota_of_timely`).
-/

namespace AsterDrive.Tasks

open Interleave List Option Statement

inductive TaskLane
  | archive | thumbnail | offlineDownload | storageMigration | fallback
  deriving DecidableEq

/-- `task_lane_kinds`. -/
def taskLaneKinds : TaskLane → List BackgroundTaskKind
  | .archive => [.archiveCompress, .archiveExtract, .archivePreviewGenerate]
  | .thumbnail => [.thumbnailGenerate, .imagePreviewGenerate, .mediaMetadataExtract]
  | .offlineDownload => [.offlineDownload]
  | .storageMigration => [.storagePolicyMigration, .storagePolicyForcedPurge]
  | .fallback => [.systemRuntime, .storagePolicyTempCleanup, .trashPurgeAll, .folderTreeMutation, .blobMaintenance]

theorem lane_eq_of_kind {lane lane' : TaskLane} {kind : BackgroundTaskKind} (h : kind ∈ taskLaneKinds lane)
    (h' : kind ∈ taskLaneKinds lane') : lane = lane' := by
  cases lane <;> cases lane' <;> first | rfl | (cases kind <;> simp [taskLaneKinds] at h h')

/-- `count_active_processing_by_kinds`. -/
def countActiveProcessingByKinds (t : BackgroundTasks) (now : ℕ) (kinds : List BackgroundTaskKind) : ℕ :=
  t.affected (activeProcessing now kinds)

/-- The order of `list_claimable`: by creation, then by id. -/
def listedBefore (a b : BackgroundTask) : Prop := a.createdAt < b.createdAt ∨ a.createdAt = b.createdAt ∧ a.id ≤ b.id

instance (a b : BackgroundTask) : Decidable (listedBefore a b) := by
  unfold listedBefore
  infer_instance

/-- `list_claimable_by_kinds_for_update`; the rows that others have locked are skipped. -/
def listClaimableByKinds (t : BackgroundTasks) (now : ℕ) (kinds : List BackgroundTaskKind) (limit : ℕ)
    (lockedIds : List ℕ) : List BackgroundTask :=
  ((t.rows.filter fun r => claimable now r && decide (r.kind ∈ kinds) && decide (r.id ∉ lockedIds)).insertionSort
    listedBefore).take limit

/-- Where a node is in its claim transaction. -/
inductive Claiming
  | idle
  | locked (lane : TaskLane) (maxClaim : ℕ)
  | timed (lane : TaskLane) (maxClaim now : ℕ)
  | counted (lane : TaskLane) (now available : ℕ)
  /-- the candidates: task id and expected token -/
  | selected (lane : TaskLane) (now available : ℕ) (candidates : List (ℕ × ℕ))

/-- The lane whose configuration row the node has locked. -/
def Claiming.lane : Claiming → Option TaskLane
  | idle => none
  | locked lane _ | timed lane _ _ | counted lane _ _ | selected lane _ _ _ => some lane

/-- The tables and the clock. -/
structure Cluster where
  tasks : BackgroundTasks
  now : ℕ
  lockedLanes : List TaskLane := []

inductive Choice
  | lockLane (lane : TaskLane) (maxClaim : ℕ)
  | readClock
  | count
  | select (lockedIds : List ℕ)
  | commit
  | abort
  | statement (s : Statement)
  | create (row : BackgroundTask)
  | cleanup (filters : TerminalTaskCleanupFilters)
  | advance (now : ℕ)

section System

-- `task_claim_candidates`, `available_lane_capacity` and `task_lease_expires_at`
variable (nextToken : ℕ → Option ℕ) (availableLaneCapacity : ℕ → ℕ → ℕ) (leaseUntil : ℕ → ℕ)
-- the parsed configuration value of each lane; `none` is no limit
variable (clusterLimit : TaskLane → Option ℕ)

/-- `claim_candidates_on`. -/
def claimCandidatesOn (now : ℕ) : List (ℕ × ℕ) → ℕ → BackgroundTasks → BackgroundTasks
  | [], _, t => t
  | _ :: _, 0, t => t
  | (id, expected) :: rest, available + 1, t =>
    let (won, t') := (Statement.claim id expected now (leaseUntil now)).exec nextToken t
    claimCandidatesOn now rest (if won then available else available + 1) t'

/-- How many tasks the transaction may claim. -/
def availableFor (t : BackgroundTasks) (lane : TaskLane) (maxClaim now : ℕ) : ℕ :=
  match clusterLimit lane with
  | some limit =>
    min (availableLaneCapacity limit (countActiveProcessingByKinds t now (taskLaneKinds lane))) maxClaim
  | none => maxClaim

/-- One step of a node. A transaction may be given up at any point. -/
def claimStep (a : Choice) (s : Cluster) (p : Claiming) : Option (Cluster × Claiming) :=
  match a, p with
  | .lockLane lane maxClaim, .idle =>
    if lane ∈ s.lockedLanes then none
    else some ({ s with lockedLanes := lane :: s.lockedLanes }, .locked lane maxClaim)
  | .readClock, .locked lane maxClaim => some (s, .timed lane maxClaim s.now)
  | .count, .timed lane maxClaim now =>
    some (s, .counted lane now (availableFor availableLaneCapacity clusterLimit s.tasks lane maxClaim now))
  | .select lockedIds, .counted lane now available =>
    some (s, .selected lane now available
      ((listClaimableByKinds s.tasks now (taskLaneKinds lane) available lockedIds).map fun r =>
        (r.id, r.processingToken)))
  | .commit, .selected lane now available candidates =>
    if candidates.all fun c => (nextToken c.2).isSome then
      some ({ s with tasks := claimCandidatesOn nextToken leaseUntil now candidates available s.tasks
                     lockedLanes := s.lockedLanes.erase lane }, .idle)
    else none
  | .abort, p => p.lane.map fun lane => ({ s with lockedLanes := s.lockedLanes.erase lane }, .idle)
  | .statement (.claim _ _ _ _), _ => none
  | .statement st, p => some ({ s with tasks := (st.exec nextToken s.tasks).2 }, p)
  | .create row, p => some ({ s with tasks := s.tasks.insert row.unclaimed row.unclaimed_id }, p)
  | .cleanup filters, p => some ({ s with tasks := cleanupTasksForAdmin s.tasks filters }, p)
  | .advance now, p => some ({ s with now := max s.now now }, p)
  | _, _ => none

-- a node that reads the clock writes nothing
example {s s' : Cluster} {p p' : Claiming}
    (h : claimStep nextToken availableLaneCapacity leaseUntil clusterLimit .readClock s p = some (s', p')) : s' = s := by
  unfold claimStep at h
  split at h <;> simp_all

/-- Any number of nodes; whatever else writes a task row is among the statements. -/
def cluster : System Cluster Claiming Choice where
  step := claimStep nextToken availableLaneCapacity leaseUntil clusterLimit

/-- The limit is kept. -/
def QuotaKept (s : Cluster) : Prop :=
  ∀ lane limit, clusterLimit lane = some limit → countActiveProcessingByKinds s.tasks s.now (taskLaneKinds lane) ≤ limit

end System

/-- The lease that a statement renews, if it renews one, has not run out. -/
def RenewsInTime (s : Cluster) (st : Statement) : Prop :=
  st.renews = true → ∀ lease ∈ st.lease, ∀ r ∈ s.tasks.get lease.1, leased lease.2 r = true →
    ∃ e ∈ r.leaseExpiresAt, s.now < e

instance (s : Cluster) (st : Statement) : Decidable (RenewsInTime s st) := by
  unfold RenewsInTime
  infer_instance

/-- No lease is renewed that has run out. -/
def Timely (s : Cluster) (_ : Claiming) : Choice → Prop
  | .statement st => RenewsInTime s st
  | _ => True

instance (s : Cluster) (p : Claiming) (a : Choice) : Decidable (Timely s p a) := by
  unfold Timely
  split <;> infer_instance

/-- No transaction is open. -/
def idleOn (t : BackgroundTasks) (now : ℕ) : Config Cluster Claiming := ⟨{ tasks := t, now }, fun _ => .idle⟩

/-! ### Counting -/

section

variable {nextToken : ℕ → Option ℕ} {leaseUntil : ℕ → ℕ} {t : BackgroundTasks} {st : Statement}
variable {r r' : BackgroundTask} {now later : ℕ} {kinds : List BackgroundTaskKind}

theorem activeProcessing_iff : activeProcessing now kinds r = true ↔
    (r.status = .processing ∨ r.status = .canceling) ∧ (∃ e, r.leaseExpiresAt = some e ∧ now < e) ∧ r.kind ∈ kinds := by
  unfold activeProcessing
  cases hl : r.leaseExpiresAt <;> simp [and_assoc]

theorem countActive_anti (hle : now ≤ later) :
    countActiveProcessingByKinds t later kinds ≤ countActiveProcessingByKinds t now kinds := by
  refine Table.affected_mono fun r _ h => ?_
  obtain ⟨hstatus, ⟨e, he, hlt⟩, hkind⟩ := (activeProcessing_iff).mp h
  exact (activeProcessing_iff).mpr ⟨hstatus, ⟨e, he, hle.trans_lt hlt⟩, hkind⟩

theorem RowStep.active (h : RowStep nextToken st r r') (hkind : r'.kind = r.kind)
    (hclaim : ∀ id e now lease, st ≠ .claim id e now lease)
    (htimely : st.renews = true → ∃ e, r.leaseExpiresAt = some e ∧ now < e)
    (hactive : activeProcessing now kinds r' = true) : activeProcessing now kinds r = true := by
  obtain ⟨hstatus, ⟨e, he, hlt⟩, hk⟩ := (activeProcessing_iff).mp hactive
  rw [hkind] at hk
  refine (activeProcessing_iff).mpr ⟨?_, ?_, hk⟩
  · cases h with
    | claim hn hclaimable htoken => exact absurd rfl (hclaim _ _ _ _)
    | keep _ _ _ hp | cancelRunning hp => exact .inl hp
    | finish _ _ _ _ _ hfree | cancelQueued _ _ _ hfree | reset _ _ _ hfree | refresh _ _ _ hfree =>
      simp [hfree] at he
  · cases h with
    | claim hn hclaimable htoken => exact absurd rfl (hclaim _ _ _ _)
    | keep _ _ _ _ _ _ hsame =>
      by_cases hren : st.renews = true
      · exact htimely hren
      · exact ⟨e, hsame (by simpa using hren) ▸ he, hlt⟩
    | finish _ _ _ _ _ hfree | cancelQueued _ _ _ hfree | reset _ _ _ hfree | refresh _ _ _ hfree =>
      simp [hfree] at he
    | cancelRunning _ _ _ hlease => exact ⟨e, hlease ▸ he, hlt⟩

theorem countActive_exec_le {bound : ℕ} (hnew : ∀ u, st.update nextToken = some u →
      (t.affected fun r => u.hits r && !activeProcessing now kinds r && activeProcessing now kinds (u.set r)) ≤ bound) :
    countActiveProcessingByKinds (st.exec nextToken t).2 now kinds ≤
      countActiveProcessingByKinds t now kinds + bound := by
  unfold exec
  cases hu : st.update nextToken with
  | none => exact Nat.le_add_right _ _
  | some u =>
    have hle := Table.affected_updateWhere_le t.toTable u.hits u.set u.sameId (activeProcessing now kinds)
    exact hle.trans (Nat.add_le_add_left (hnew u hu) _)

theorem countActive_exec_succ (nextToken : ℕ → Option ℕ) (st : Statement) (t : BackgroundTasks) (now : ℕ)
    (kinds : List BackgroundTaskKind) :
    countActiveProcessingByKinds (st.exec nextToken t).2 now kinds ≤ countActiveProcessingByKinds t now kinds + 1 := by
  refine countActive_exec_le fun u _ => ?_
  simp only [GuardedUpdate.hits, Bool.and_assoc]
  exact Table.affected_key_le_one _ _ _

theorem countActive_exec_of_not (hno : ∀ i r r', t.get i = some r →
      (st.exec nextToken t).2.get i = some r' → RowStep nextToken st r r' → r'.kind = r.kind →
        activeProcessing now kinds r' = true → activeProcessing now kinds r = true) :
    countActiveProcessingByKinds (st.exec nextToken t).2 now kinds ≤ countActiveProcessingByKinds t now kinds := by
  rw [← Nat.add_zero (countActiveProcessingByKinds t now kinds)]
  refine countActive_exec_le fun u hu => ?_
  refine (countP_eq_zero.mpr fun r hr hcond => ?_).le
  simp only [Bool.and_eq_true, Bool.not_eq_true'] at hcond
  obtain ⟨⟨hhit, hnot⟩, hactive⟩ := hcond
  obtain ⟨hid, hguard⟩ := Bool.and_eq_true_iff.mp hhit
  have hget := Table.get_of_mem hr
  have hget' : (st.exec nextToken t).2.get r.id = some (u.set r) := by
    unfold exec
    rw [hu]
    show (u.exec t).2.get r.id = _
    rw [GuardedUpdate.get_exec, hget, map_some, if_pos hhit]
  have hback := hno r.id r (u.set r) hget hget' (rowStep_of_hit hu (of_decide_eq_true hid) hguard)
    (kind_exec hget hget') hactive
  rw [hnot] at hback
  cases hback

variable {claimedAt available : ℕ} {candidates : List (ℕ × ℕ)}

theorem countActive_claimCandidates :
    countActiveProcessingByKinds (claimCandidatesOn nextToken leaseUntil claimedAt candidates available t) now
      kinds ≤ countActiveProcessingByKinds t now kinds + available := by
  induction candidates generalizing available t with
  | nil => exact Nat.le_add_right _ _
  | cons c rest ih =>
    obtain ⟨id, expected⟩ := c
    cases available with
    | zero => exact le_rfl
    | succ n =>
      rw [claimCandidatesOn]
      let claim : Statement := .claim id expected claimedAt (leaseUntil claimedAt)
      have hone := countActive_exec_succ nextToken claim t now kinds
      have hmiss : (claim.exec nextToken t).1 = false → (claim.exec nextToken t).2 = t := exec_miss
      rcases hexec : claim.exec nextToken t with ⟨won, t'⟩
      rw [hexec] at hone hmiss
      show countActiveProcessingByKinds (claimCandidatesOn nextToken leaseUntil claimedAt rest
        (if won then n else n + 1) t') now kinds ≤ _
      cases won with
      | true =>
        have hrest := @ih t' n
        simp only [if_true]
        dsimp only at hone
        omega
      | false =>
        obtain rfl : t' = t := hmiss rfl
        exact ih

theorem countActive_claimCandidates_other (hother : ∀ c ∈ candidates, ∀ r, t.get c.1 = some r → r.kind ∉ kinds) :
    countActiveProcessingByKinds (claimCandidatesOn nextToken leaseUntil claimedAt candidates available t) now
      kinds ≤ countActiveProcessingByKinds t now kinds := by
  induction candidates generalizing available t with
  | nil => exact le_rfl
  | cons c rest ih =>
    obtain ⟨id, expected⟩ := c
    cases available with
    | zero => exact le_rfl
    | succ n =>
      let claim : Statement := .claim id expected claimedAt (leaseUntil claimedAt)
      have hclaim : countActiveProcessingByKinds (claim.exec nextToken t).2 now kinds ≤
          countActiveProcessingByKinds t now kinds := by
        refine countActive_exec_of_not fun i r r' hr _ hstep hkind hactive => ?_
        replace hstep : RowStep nextToken (.claim id expected claimedAt (leaseUntil claimedAt)) r r' := hstep
        cases hstep with
        | claim hn hclaimable htoken =>
          obtain ⟨-, -, hk⟩ := (activeProcessing_iff).mp hactive
          rw [hkind] at hk
          exact absurd hk (hother _ mem_cons_self r (Table.key_of_get hr ▸ hr))
        | keep hlease | finish hlease => cases hlease
      refine le_trans (ih fun c hc r' hr' => ?_) hclaim
      obtain ⟨r, hr, -⟩ := get_exec_some hr'
      rw [kind_exec hr hr']
      exact hother c (mem_cons_of_mem _ hc) r hr

theorem claimCandidates_rows : (claimCandidatesOn nextToken leaseUntil claimedAt candidates available t).next = t.next ∧
      ∀ i r', (claimCandidatesOn nextToken leaseUntil claimedAt candidates available t).get i = some r' →
        ∃ r, t.get i = some r ∧ r'.kind = r.kind := by
  induction candidates generalizing available t with
  | nil => exact ⟨rfl, fun i r' h => ⟨r', h, rfl⟩⟩
  | cons c rest ih =>
    obtain ⟨id, expected⟩ := c
    cases available with
    | zero => exact ⟨rfl, fun i r' h => ⟨r', h, rfl⟩⟩
    | succ n =>
      let claim : Statement := .claim id expected claimedAt (leaseUntil claimedAt)
      have hrest := @ih (claim.exec nextToken t).2 (if (claim.exec nextToken t).1 then n else n + 1)
      refine ⟨hrest.1.trans exec_next, fun i r'' h => ?_⟩
      obtain ⟨r', hr', hkind'⟩ := hrest.2 i r'' h
      obtain ⟨r, hr, -⟩ := get_exec_some hr'
      exact ⟨r, hr, hkind'.trans (kind_exec hr hr')⟩

end

/-! ### The invariant -/

section

variable {nextToken : ℕ → Option ℕ} {availableLaneCapacity : ℕ → ℕ → ℕ} {leaseUntil : ℕ → ℕ}
variable {clusterLimit : TaskLane → Option ℕ} {s s' : Cluster} {p p' q : Claiming} {a : Choice}

/-- There is still room for what the transaction may claim, counted at the time that it read. -/
def Room (clusterLimit : TaskLane → Option ℕ) (s : Cluster) (lane : TaskLane) (now available : ℕ) : Prop :=
  ∀ limit, clusterLimit lane = some limit →
    available = 0 ∨ countActiveProcessingByKinds s.tasks now (taskLaneKinds lane) + available ≤ limit

/-- What a node knows in the middle of its transaction. -/
def Claiming.Fits (clusterLimit : TaskLane → Option ℕ) (s : Cluster) : Claiming → Prop
  | .idle => True
  | .locked lane _ => lane ∈ s.lockedLanes
  | .timed lane _ now => lane ∈ s.lockedLanes ∧ now ≤ s.now
  | .counted lane now available => lane ∈ s.lockedLanes ∧ now ≤ s.now ∧ Room clusterLimit s lane now available
  | .selected lane now available candidates =>
    lane ∈ s.lockedLanes ∧ now ≤ s.now ∧ Room clusterLimit s lane now available ∧
      ∀ c ∈ candidates, c.1 < s.tasks.next ∧ ∀ r, s.tasks.get c.1 = some r → r.kind ∈ taskLaneKinds lane

/-- Two nodes do not hold the row of one lane. -/
def Apart (p q : Claiming) : Prop := ∀ lane, p.lane = some lane → q.lane ≠ some lane

/-- What a step looks like to the others. -/
structure Seen (p : Claiming) (a : Choice) (s s' : Cluster) : Prop where
  now : s.now ≤ s'.now
  next : s.tasks.next ≤ s'.tasks.next
  kinds : ∀ i r', i < s.tasks.next → s'.tasks.get i = some r' → ∃ r, s.tasks.get i = some r ∧ r'.kind = r.kind
  /-- only a commit, and only in its own lane, adds to a count -/
  counts : ∀ lane, (a = .commit → p.lane ≠ some lane) → ∀ τ ≤ s.now,
    countActiveProcessingByKinds s'.tasks τ (taskLaneKinds lane) ≤
      countActiveProcessingByKinds s.tasks τ (taskLaneKinds lane)
  locks : ∀ lane ∈ s.lockedLanes, p.lane ≠ some lane → lane ∈ s'.lockedLanes

theorem Seen.of_tasks (hnow : s.now ≤ s'.now) (htasks : s'.tasks = s.tasks)
    (hlocks : ∀ lane ∈ s.lockedLanes, p.lane ≠ some lane → lane ∈ s'.lockedLanes) : Seen p a s s' where
  now := hnow
  next := by rw [htasks]
  kinds i r' _ h := ⟨r', htasks ▸ h, rfl⟩
  counts lane _ τ _ := by rw [htasks]
  locks := hlocks

theorem Seen.of_statement {st : Statement} (hclaim : ∀ id e now lease, st ≠ .claim id e now lease)
    (htimely : Timely s p (.statement st)) :
    Seen p (.statement st) s { s with tasks := (st.exec nextToken s.tasks).2 } where
  now := le_rfl
  next := exec_next.ge
  kinds i r' _ h := by
    obtain ⟨r, hr, -⟩ := get_exec_some h
    exact ⟨r, hr, kind_exec hr h⟩
  counts lane _ τ hτ := by
    refine countActive_exec_of_not fun i r r' hr _ hstep hkind hactive => ?_
    refine hstep.active hkind hclaim (fun hren => ?_) hactive
    have hlease : st.lease = some (r.id, r.processingToken) ∧ leased r.processingToken r = true := by
      cases hstep with
      | keep hlease _ _ hp => exact ⟨hlease, leased_iff.mpr ⟨hp, rfl⟩⟩
      | finish _ hend => cases st <;> simp [renews, endsAttempt] at hren hend
      | _ => simp [renews] at hren
    obtain ⟨e, he, hlt⟩ := htimely hren _ hlease.1 r (Table.key_of_get hr ▸ hr) hlease.2
    exact ⟨e, he, hτ.trans_lt hlt⟩
  locks _ h _ := h

theorem mem_erase_lane {lane lane' : TaskLane} (h : lane ∈ s.lockedLanes) (hne : some lane' ≠ some lane) :
    lane ∈ s.lockedLanes.erase lane' :=
  (mem_erase_of_ne fun heq => hne (congrArg some heq.symm)).mpr h

theorem seen_of_step (hfits : p.Fits clusterLimit s) (htimely : Timely s p a)
    (h : claimStep nextToken availableLaneCapacity leaseUntil clusterLimit a s p = some (s', p')) :
    Seen p a s s' := by
  unfold claimStep at h
  split at h
  · split_ifs at h
    cases h
    exact .of_tasks le_rfl rfl fun lane hl _ => mem_cons_of_mem _ hl
  · cases h
    exact .of_tasks le_rfl rfl fun lane hl _ => hl
  · cases h
    exact .of_tasks le_rfl rfl fun lane hl _ => hl
  · cases h
    exact .of_tasks le_rfl rfl fun lane hl _ => hl
  · -- the commit
    rename_i lane now available candidates
    split_ifs at h
    cases h
    obtain ⟨-, -, -, hcand⟩ := hfits
    refine ⟨le_rfl, claimCandidates_rows.1.ge, fun i r' _ hr' => claimCandidates_rows.2 i r' hr', ?_, ?_⟩
    · intro other hother τ _
      refine countActive_claimCandidates_other fun c hc r hr hk => ?_
      have hsame : lane = other := lane_eq_of_kind ((hcand c hc).2 r hr) hk
      exact hother rfl (congrArg some hsame)
    · exact fun other hl hne => mem_erase_lane hl hne
  · obtain ⟨lane, hlane, heq⟩ := map_eq_some_iff.mp h
    cases heq
    exact .of_tasks le_rfl rfl fun other hl hne => mem_erase_lane hl (hlane ▸ hne)
  · cases h
  · rename_i st _ hclaim
    cases h
    exact .of_statement hclaim htimely
  · rename_i row
    cases h
    refine ⟨le_rfl, Nat.le_succ _, fun i r' hi hr' => ?_, fun lane _ τ _ => ?_, fun lane hl _ => hl⟩
    · have hid : ∀ n, (row.unclaimed n).id = n := fun _ => rfl
      replace hr' := (SerialTable.get_insert s.tasks hid i).symm.trans hr'
      rw [if_neg hi.ne'] at hr'
      exact ⟨r', hr', rfl⟩
    · show (s.tasks.rows ++ [row.unclaimed s.tasks.next]).countP _ ≤ _
      simp [activeProcessing, BackgroundTask.unclaimed, BackgroundTask.withoutLease,
        countActiveProcessingByKinds, Table.affected]
  · cases h
    refine ⟨le_rfl, ?_, fun i r' _ hr' => ⟨r', get_cleanup hr', rfl⟩, fun lane _ τ _ => ?_, fun lane hl _ => hl⟩
    · show s.tasks.next ≤ (cleanupTasksForAdmin s.tasks _).next
      unfold cleanupTasksForAdmin
      split_ifs <;> exact le_rfl
    · show countActiveProcessingByKinds (cleanupTasksForAdmin s.tasks _) τ _ ≤ _
      unfold cleanupTasksForAdmin
      split_ifs
      · exact le_rfl
      · exact Table.affected_deleteWhere_le _ _ _
  · cases h
    exact .of_tasks (le_max_left _ _) rfl fun lane hl _ => hl
  · cases h

theorem Room.seen {lane : TaskLane} {now available : ℕ} (h : Room clusterLimit s lane now available)
    (hle : countActiveProcessingByKinds s'.tasks now (taskLaneKinds lane) ≤
      countActiveProcessingByKinds s.tasks now (taskLaneKinds lane)) :
    Room clusterLimit s' lane now available := by
  intro limit hlimit
  rcases h limit hlimit with hzero | hroom
  · exact .inl hzero
  · right
    omega

theorem Claiming.Fits.seen (h : q.Fits clusterLimit s) (hseen : Seen p a s s')
    (hlock : ∀ lane, q.lane = some lane → lane ∈ s.lockedLanes → lane ∈ s'.lockedLanes)
    (hcommit : ∀ lane, q.lane = some lane → a = .commit → p.lane ≠ some lane) : q.Fits clusterLimit s' := by
  have hroom : ∀ lane now available, q.lane = some lane → now ≤ s.now →
      Room clusterLimit s lane now available → Room clusterLimit s' lane now available :=
    fun lane now available hq hle hr => hr.seen (hseen.counts lane (hcommit lane hq) now hle)
  cases q with
  | idle => trivial
  | locked lane maxClaim => exact hlock lane rfl h
  | timed lane maxClaim now => exact ⟨hlock lane rfl h.1, h.2.trans hseen.now⟩
  | counted lane now available =>
    obtain ⟨hl, hle, hr⟩ := h
    exact ⟨hlock lane rfl hl, hle.trans hseen.now, hroom lane now available rfl hle hr⟩
  | selected lane now available candidates =>
    obtain ⟨hl, hle, hr, hcand⟩ := h
    refine ⟨hlock lane rfl hl, hle.trans hseen.now, hroom lane now available rfl hle hr, fun c hc => ?_⟩
    obtain ⟨hlt, hkind⟩ := hcand c hc
    refine ⟨hlt.trans_le hseen.next, fun r' hr' => ?_⟩
    obtain ⟨r, hr, hsame⟩ := hseen.kinds c.1 r' hlt hr'
    rw [hsame]
    exact hkind r hr

theorem room_availableFor (hcapacity : ∀ limit active, availableLaneCapacity limit active ≤ limit - active)
    (s : Cluster) (lane : TaskLane) (maxClaim now : ℕ) :
    Room clusterLimit s lane now (availableFor availableLaneCapacity clusterLimit s.tasks lane maxClaim now) := by
  intro limit hlimit
  have hle : availableFor availableLaneCapacity clusterLimit s.tasks lane maxClaim now ≤
      limit - countActiveProcessingByKinds s.tasks now (taskLaneKinds lane) := by
    simp only [availableFor, hlimit]
    exact (min_le_left _ _).trans (hcapacity _ _)
  omega

theorem mem_listClaimable {t : BackgroundTasks} {now limit : ℕ} {kinds : List BackgroundTaskKind}
    {lockedIds : List ℕ} {r : BackgroundTask} (h : r ∈ listClaimableByKinds t now kinds limit lockedIds) :
    r ∈ t.rows ∧ r.kind ∈ kinds := by
  have hsorted := mem_of_mem_take h
  obtain ⟨hrow, hcond⟩ := mem_filter.mp ((perm_insertionSort _ _).mem_iff.mp hsorted)
  simp only [Bool.and_eq_true, decide_eq_true_eq] at hcond
  exact ⟨hrow, hcond.1.2⟩

theorem quotaKept_step (hcapacity : ∀ limit active, availableLaneCapacity limit active ≤ limit - active)
    (hquota : QuotaKept clusterLimit s) (hfits : p.Fits clusterLimit s) (htimely : Timely s p a)
    (h : claimStep nextToken availableLaneCapacity leaseUntil clusterLimit a s p = some (s', p')) :
    QuotaKept clusterLimit s' ∧ p'.Fits clusterLimit s' := by
  have hseen := seen_of_step hfits htimely h
  have hothers : ∀ lane limit, clusterLimit lane = some limit → (a = .commit → p.lane ≠ some lane) →
      countActiveProcessingByKinds s'.tasks s'.now (taskLaneKinds lane) ≤ limit := by
    intro lane limit hlimit hlane
    have h1 : countActiveProcessingByKinds s'.tasks s'.now (taskLaneKinds lane) ≤
        countActiveProcessingByKinds s'.tasks s.now (taskLaneKinds lane) := countActive_anti hseen.now
    have h2 := hseen.counts lane hlane s.now le_rfl
    have h3 := hquota lane limit hlimit
    omega
  have hquota' : a ≠ .commit → QuotaKept clusterLimit s' := fun ha lane limit hlimit =>
    hothers lane limit hlimit fun hc => absurd hc ha
  unfold claimStep at h
  split at h
  · refine ⟨hquota' (by simp), ?_⟩
    split_ifs at h
    cases h
    exact mem_cons_self
  · refine ⟨hquota' (by simp), ?_⟩
    cases h
    exact ⟨hfits, le_rfl⟩
  · refine ⟨hquota' (by simp), ?_⟩
    cases h
    exact ⟨hfits.1, hfits.2, room_availableFor hcapacity _ _ _ _⟩
  · refine ⟨hquota' (by simp), ?_⟩
    cases h
    refine ⟨hfits.1, hfits.2.1, hfits.2.2, fun c hc => ?_⟩
    obtain ⟨r, hr, rfl⟩ := List.mem_map.mp hc
    obtain ⟨hrow, hkind⟩ := mem_listClaimable hr
    refine ⟨s.tasks.below r hrow, fun x hx => ?_⟩
    rw [some.inj (hx.symm.trans (Table.get_of_mem hrow))]
    exact hkind
  · -- the commit: the count at the time of the commit is at most the count that was read
    rename_i lane now available candidates
    obtain ⟨-, hle, hroom, -⟩ := hfits
    split_ifs at h
    cases h
    refine ⟨fun other limit hlimit => ?_, trivial⟩
    by_cases hsame : other = lane
    · subst hsame
      have hclaim : countActiveProcessingByKinds
          (claimCandidatesOn nextToken leaseUntil now candidates available s.tasks) s.now (taskLaneKinds other) ≤
          countActiveProcessingByKinds s.tasks s.now (taskLaneKinds other) + available :=
        countActive_claimCandidates
      have hanti : countActiveProcessingByKinds s.tasks s.now (taskLaneKinds other) ≤
          countActiveProcessingByKinds s.tasks now (taskLaneKinds other) := countActive_anti hle
      have hold := hquota other limit hlimit
      refine hclaim.trans ?_
      rcases hroom limit hlimit with hzero | hroom
      all_goals omega
    · exact hothers other limit hlimit fun _ heq => hsame (some.inj heq).symm
  · refine ⟨hquota' (by simp), ?_⟩
    obtain ⟨lane, hlane, heq⟩ := map_eq_some_iff.mp h
    cases heq
    trivial
  · cases h
  · refine ⟨hquota' (by simp), ?_⟩
    cases h
    exact hfits.seen hseen (fun _ _ hl => hl) (by simp)
  · refine ⟨hquota' (by simp), ?_⟩
    cases h
    exact hfits.seen hseen (fun _ _ hl => hl) (by simp)
  · refine ⟨hquota' (by simp), ?_⟩
    cases h
    exact hfits.seen hseen (fun _ _ hl => hl) (by simp)
  · refine ⟨hquota' (by simp), ?_⟩
    cases h
    exact hfits.seen hseen (fun _ _ hl => hl) (by simp)
  · cases h

theorem apart_step (hfits : q.Fits clusterLimit s) (hpq : Apart p q) (hqp : Apart q p)
    (h : claimStep nextToken availableLaneCapacity leaseUntil clusterLimit a s p = some (s', p')) :
    Apart p' q ∧ Apart q p' := by
  have hsame : p'.lane = p.lane → Apart p' q ∧ Apart q p' := fun heq =>
    ⟨fun lane hl => hpq lane (heq ▸ hl), fun lane hl => heq ▸ hqp lane hl⟩
  have hidle : p'.lane = none → Apart p' q ∧ Apart q p' := fun heq =>
    ⟨fun lane hl => by simp [heq] at hl, fun lane _ => by simp [heq]⟩
  have hheld : ∀ lane, q.lane = some lane → lane ∈ s.lockedLanes := by
    intro lane hl
    cases q with
    | idle => cases hl
    | locked lane' maxClaim =>
      cases hl
      exact hfits
    | timed lane' maxClaim now | counted lane' now available | selected lane' now available candidates =>
      cases hl
      exact hfits.1
  unfold claimStep at h
  split at h
  · rename_i lane maxClaim
    split_ifs at h with hfree
    cases h
    refine ⟨fun l hl hq => ?_, fun l hq hl => ?_⟩
    all_goals exact hfree (some.inj hl ▸ hheld l hq)
  · cases h
    exact hsame rfl
  · cases h
    exact hsame rfl
  · cases h
    exact hsame rfl
  · split_ifs at h
    cases h
    exact hidle rfl
  · obtain ⟨lane, -, heq⟩ := map_eq_some_iff.mp h
    cases heq
    exact hidle rfl
  · cases h
  · cases h
    exact hsame rfl
  · cases h
    exact hsame rfl
  · cases h
    exact hsame rfl
  · cases h
    exact hsame rfl
  · cases h

/-- **The limit of a lane, as long as no lease is renewed that has run out.** -/
theorem lane_quota_of_timely
    (hcapacity : ∀ limit active, availableLaneCapacity limit active ≤ limit - active) {t : BackgroundTasks}
    {now : ℕ} (hstart : QuotaKept clusterLimit { tasks := t, now }) {c : Config Cluster Claiming}
    (h : Reach (cluster nextToken availableLaneCapacity leaseUntil clusterLimit) Timely (idleOn t now) c) :
    QuotaKept clusterLimit c.shared := by
  have hall : Holds (QuotaKept clusterLimit) (fun s p => p.Fits clusterLimit s) Apart c := by
    refine h.owicki (fun hI hA hg hstep => ?_) (fun {s s' p p' q a} hI hp hq hpq hqp hg hstep => ?_) ?_
    · exact quotaKept_step hcapacity hI hA hg hstep
    · have hseen := seen_of_step hp hg hstep
      refine ⟨hq.seen hseen ?_ fun lane hl _ => hqp lane hl, apart_step hq hpq hqp hstep⟩
      exact fun lane hl hmem => hseen.locks lane hmem (hqp lane hl)
    · exact ⟨hstart, fun _ => trivial, fun _ _ _ lane hl => by cases hl⟩
  exact hall.shared

end

/-! A limit of one, and two tasks: the older one becomes due after the younger one was claimed. -/

def archiveTask (id nextRunAt createdAt : ℕ) : BackgroundTask :=
  { id, kind := .archiveExtract, status := .pending, creatorUserId := some 7, teamId := none
    displayName := "extract", payloadJson := "", maxAttempts := 3, nextRunAt, expiresAt := 1000, createdAt
    updatedAt := createdAt }

def twoTasks : BackgroundTasks where
  rows := [archiveTask 1 70 0, archiveTask 2 0 1]
  unique := by decide
  next := 3
  below := by decide

/-- The functions of the task library, and a limit of one task for each lane. -/
def oneAtATime : System Cluster Claiming Choice :=
  cluster (fun t => some (t + 1)) (fun limit active => limit - active) (fun now => now + 60) fun _ => some 1

/-- The steps of one claim transaction of a node. -/
def claimBatch (node : ℕ) : List (ℕ × Choice) :=
  [(node, .lockLane .archive 4), (node, .readClock), (node, .count), (node, .select []), (node, .commit)]

/-- The lease is renewed in time, so the other task has to wait. -/
theorem lane_quota_two_nodes : ∃ c, Reach oneAtATime Timely (idleOn twoTasks 0) c ∧
      countActiveProcessingByKinds c.shared.tasks c.shared.now (taskLaneKinds .archive) = 1 ∧
      QuotaKept (fun _ => some 1) c.shared := by
  have hrun : (oneAtATime.run Timely (idleOn twoTasks 0)
      (claimBatch 0 ++ [(0, .advance 30), (0, .statement (.heartbeat 2 1 30 90)), (0, .advance 70)] ++
        claimBatch 1)).map
        (fun c => countActiveProcessingByKinds c.shared.tasks c.shared.now (taskLaneKinds .archive)) = some 1 := by
    decide
  obtain ⟨c, hc, hcount⟩ := map_eq_some_iff.mp hrun
  have hreach := run_reach hc
  refine ⟨c, hreach, hcount, lane_quota_of_timely (fun _ _ => le_rfl) (fun lane limit hl => ?_) hreach⟩
  cases lane <;> cases hl <;> decide

/-- The second task's lease runs out, the first task gets its place, and then the second task's worker
wakes up and renews. -/
theorem lane_quota_exceeded_by_late_heartbeat : QuotaKept (fun _ => some 1) { tasks := twoTasks, now := 0 } ∧
      ∃ c, Reach oneAtATime free (idleOn twoTasks 0) c ∧ ¬ QuotaKept (fun _ => some 1) c.shared := by
  refine ⟨fun lane limit hl => ?_, ?_⟩
  · cases lane <;> cases hl <;> decide
  have hrun : (oneAtATime.run free (idleOn twoTasks 0)
      (claimBatch 0 ++ [(0, .advance 70)] ++ claimBatch 1 ++ [(0, .statement (.heartbeat 2 1 70 130))])).map
        (fun c => countActiveProcessingByKinds c.shared.tasks c.shared.now (taskLaneKinds .archive)) = some 2 := by
    decide
  obtain ⟨c, hc, hcount⟩ := map_eq_some_iff.mp hrun
  refine ⟨c, run_reach hc, fun hquota => ?_⟩
  have hle := hquota .archive 1 rfl
  omega

end AsterDrive.Tasks
