import Mathlib.Algebra.Order.Group.Multiset
import AsterDrive.Lib.Lts
import AsterDrive.Sharing.Shares

/-!
# Sharing/RollbackQueue — the queue of download rollbacks and its worker

`ShareDownloadRollbackQueue::enqueue` (`share/content.rs`) counts a job as pending and tries to send it
to the worker. A full channel diverts the job into the overflow map, a closed one into a task of its
own. `run_share_download_rollback_worker` takes the overflow map, then what is in the channel, and
lowers the counters; without work it waits for the channel or for the shutdown. One step of `rollbackQueue`
is one of `try_send`, a push into the map, a receive, taking the map, or one statement on the database.

The worker looks at the map only when the channel has woken it up. A call that finds the channel full
and comes to the map after the worker has emptied both leaves its job there (`rollback_stranded`).
-/

namespace AsterDrive.Sharing

open Multiset

/-- `HashMap<i64, u64>`, shares with their counts: a share occurs as often as its count says. -/
abbrev Batch := Multiset ℕ

/-- `DownloadCountRollbackJob`. -/
structure DownloadCountRollbackJob where
  shareId : ℕ
  count : ℕ
  deriving DecidableEq

/-- What a job adds to a map. -/
def DownloadCountRollbackJob.batch (job : DownloadCountRollbackJob) : Batch := .replicate job.count job.shareId

def pushJob (batch : Batch) (job : DownloadCountRollbackJob) : Batch := batch + job.batch

def mergeBatch (target source : Batch) : Batch := target + source

/-- All the jobs of a list. -/
def batchOf (jobs : List DownloadCountRollbackJob) : Batch := (jobs.map DownloadCountRollbackJob.batch).sum

/-- Where the worker is. `last`: it is shutting down and looks once more before it leaves. -/
inductive WorkerState
  | top
  | draining (last : Bool) (batch : Batch)
  | taking (last : Bool) (batch : Batch)
  | waiting
  | applying (batch : Batch)
  | leaving
  | exited
  deriving DecidableEq

open WorkerState

/-- What the worker has taken and not yet applied. -/
def WorkerState.batch : WorkerState → Batch
  | draining _ batch => batch
  | taking _ batch => batch
  | applying batch => batch
  | top => 0
  | waiting => 0
  | leaving => 0
  | exited => 0

/-- The queue, its worker, the calls of `enqueue` that are under way (by what they found: the job is
counted, the channel was full, the channel was closed), the fallback tasks, and the shares.
`enqueued`, `applied`, `failed` and `dropped` are histories: jobs counted, jobs whose statement ran, jobs
whose statement failed, and jobs that went down with the receiver. -/
structure RollbackQueue where
  shares : Shares
  channel : List DownloadCountRollbackJob := []
  overflow : Batch := 0
  pending : ℕ := 0
  worker : WorkerState := .top
  shuttingDown : Bool := false
  cancelled : Bool := false
  senders : Bool := true
  counted : List DownloadCountRollbackJob := []
  refused : List DownloadCountRollbackJob := []
  closed : List DownloadCountRollbackJob := []
  fallbacks : List DownloadCountRollbackJob := []
  enqueued : Batch := 0
  applied : Batch := 0
  failed : Batch := 0
  dropped : Batch := 0

open RollbackQueue

inductive QueueAct
  | enqueue (shareId : ℕ)
  | trySend (job : DownloadCountRollbackJob)
  | pushOverflow (job : DownloadCountRollbackJob)
  | spawnFallback (job : DownloadCountRollbackJob)
  | runFallback (job : DownloadCountRollbackJob) (ok : Bool)
  | cancel
  | dropSenders
  | takeOverflow
  | wake
  | receive
  | tryReceive
  | mergeOverflow
  | apply (shareId : ℕ) (ok : Bool)
  | nextRound
  | dropReceiver
  deriving DecidableEq

/-- No call of `enqueue` is under way. -/
def RollbackQueue.NoCalls (q : RollbackQueue) : Prop := q.counted = [] ∧ q.refused = [] ∧ q.closed = []

instance (q : RollbackQueue) : Decidable q.NoCalls := inferInstanceAs (Decidable (_ ∧ _))

/-- `apply_download_count_rollback`: the statement, and then the pending count. `ok = false`: it failed, and is
logged. -/
def applyDownloadCountRollback (q : RollbackQueue) (shareId count : ℕ) (ok : Bool) : RollbackQueue :=
  { q with
    shares := if ok then (decrementDownloadCountBy q.shares shareId count).2 else q.shares
    pending := q.pending - count
    applied := if ok then q.applied + .replicate count shareId else q.applied
    failed := if ok then q.failed else q.failed + .replicate count shareId }

/-- Where the loop goes with what it has drained and taken: a worker that was to leave leaves if it found nothing,
and goes through the second half of the round otherwise. -/
def WorkerState.drained : Bool → Batch → WorkerState
  | true, batch => if batch = 0 then leaving else draining false batch
  | false, batch => applying batch

section

variable (capacity : ℕ) (q : RollbackQueue)

/-- `try_send` and the three ways it can end. -/
def trySend (job : DownloadCountRollbackJob) : RollbackQueue :=
  if q.worker = .exited then { q with counted := q.counted.erase job, closed := job :: q.closed }
  else if q.channel.length < capacity then
    { q with counted := q.counted.erase job, channel := q.channel ++ [job] }
  else { q with counted := q.counted.erase job, refused := job :: q.refused }

/-- The head of the loop: the overflow map is taken; without anything in it the worker looks a last time if it is
shutting down, and waits otherwise. -/
def takeOverflow : RollbackQueue :=
  { q with
    overflow := 0
    worker :=
      if q.overflow = 0 then if q.shuttingDown then .draining true 0 else .waiting
      else .draining false q.overflow }

/-- `recv` of a waiting worker: a job, or the end of the channel when there is no sender left. -/
def receive : Option RollbackQueue :=
  match q.channel with
  | job :: rest => some { q with channel := rest, worker := .draining false (pushJob 0 job) }
  | [] => if q.senders then none else some { q with shuttingDown := true, worker := .top }

/-- `try_recv` of the draining loop. -/
def tryReceive (last : Bool) (batch : Batch) : RollbackQueue :=
  match q.channel with
  | job :: rest => { q with channel := rest, worker := .draining last (pushJob batch job) }
  | [] => { q with worker := .taking last batch }

def stepQueue : QueueAct → Option RollbackQueue
  | .enqueue shareId =>
    if q.senders then
      some { q with pending := q.pending + 1, counted := ⟨shareId, 1⟩ :: q.counted, enqueued := shareId ::ₘ q.enqueued }
    else none
  | .trySend job => if job ∈ q.counted then some (trySend capacity q job) else none
  | .pushOverflow job =>
    if job ∈ q.refused then
      some { q with refused := q.refused.erase job, overflow := pushJob q.overflow job }
    else none
  | .spawnFallback job =>
    if job ∈ q.closed then
      some { q with closed := q.closed.erase job, fallbacks := job :: q.fallbacks }
    else none
  | .runFallback job ok =>
    if job ∈ q.fallbacks then
      some (applyDownloadCountRollback { q with fallbacks := q.fallbacks.erase job } job.shareId job.count ok)
    else none
  | .cancel => some { q with cancelled := true }
  | .dropSenders => if q.NoCalls then some { q with senders := false } else none
  | .takeOverflow => if q.worker = .top then some (takeOverflow q) else none
  | .wake =>
    if q.worker = .waiting ∧ q.cancelled then some { q with shuttingDown := true, worker := .top } else none
  -- the select is biased: the token is asked first
  | .receive => if q.worker = .waiting ∧ q.cancelled = false then receive q else none
  | .tryReceive =>
    match q.worker with
    | .draining last batch => some (tryReceive q last batch)
    | _ => none
  | .mergeOverflow =>
    match q.worker with
    | .taking last batch =>
      some { q with overflow := 0, worker := .drained last (mergeBatch batch q.overflow) }
    | _ => none
  | .apply shareId ok =>
    match q.worker with
    | .applying batch =>
      if shareId ∈ batch then
        some (applyDownloadCountRollback { q with worker := .applying (batch.filter (· ≠ shareId)) } shareId
          (batch.count shareId) ok)
      else none
    | _ => none
  | .nextRound => if q.worker = .applying 0 then some { q with worker := .top } else none
  | .dropReceiver =>
    if q.worker = .leaving then
      some { q with worker := .exited, channel := [], dropped := q.dropped + batchOf q.channel }
    else none

end

def rollbackQueue (capacity : ℕ) : Lts RollbackQueue QueueAct := ⟨stepQueue capacity⟩

/-- `build_share_download_rollback_queue` and the worker's start. -/
def RollbackQueue.start (shares : Shares) : RollbackQueue := { shares }

/-- The worker is waiting and nothing that can wake it has happened. -/
def RollbackQueue.Blocked (q : RollbackQueue) : Prop :=
  q.worker = .waiting ∧ q.channel = [] ∧ q.cancelled = false ∧ q.senders = true

instance (q : RollbackQueue) : Decidable q.Blocked := inferInstanceAs (Decidable (_ ∧ _))

/-- The rollbacks that have been enqueued and that nobody has applied yet. -/
def RollbackQueue.held (q : RollbackQueue) : Batch :=
  batchOf q.counted + batchOf q.refused + batchOf q.closed + batchOf q.fallbacks + batchOf q.channel + q.overflow +
    q.worker.batch

/-- Nothing is stranded and nothing is lost. -/
structure RollbackQueue.Faithful (q : RollbackQueue) : Prop where
  once : q.applied ≤ q.enqueued
  stranded : q.Blocked → q.NoCalls → q.overflow = 0 ∧ q.pending = 0
  lost : q.worker = .exited → q.NoCalls → q.fallbacks = [] → q.applied = q.enqueued

/-! ### Accounting -/

section Accounting

variable {capacity : ℕ} {q q' : RollbackQueue} {a : QueueAct} {job : DownloadCountRollbackJob}
  {jobs jobs' : List DownloadCountRollbackJob}

@[simp] theorem batchOf_nil : batchOf [] = 0 := rfl

@[simp] theorem batchOf_cons : batchOf (job :: jobs) = job.batch + batchOf jobs := by
  simp [batchOf]

@[simp] theorem batchOf_append : batchOf (jobs ++ jobs') = batchOf jobs + batchOf jobs' := by
  simp [batchOf]

theorem batchOf_erase (h : job ∈ jobs) : batchOf jobs = job.batch + batchOf (jobs.erase job) :=
  (List.sum_map_erase DownloadCountRollbackJob.batch h).symm

theorem batch_split (batch : Batch) (shareId : ℕ) :
    batch = .replicate (batch.count shareId) shareId + batch.filter (· ≠ shareId) := by
  rw [← filter_eq' batch shareId]
  exact (filter_add_not (· = shareId) batch).symm

@[simp] theorem WorkerState.batch_drained (last : Bool) (batch : Batch) :
    (drained last batch).batch = batch := by
  cases last with
  | false => rfl
  | true =>
    show (if batch = 0 then leaving else draining false batch).batch = batch
    split_ifs with h
    · exact h.symm
    · rfl

/-- Every rollback is somewhere, and the pending count is right. -/
structure RollbackQueue.Accounted (q : RollbackQueue) : Prop where
  jobs : q.enqueued = q.applied + q.failed + q.dropped + q.held
  pending : q.pending = (q.dropped + q.held).card

theorem RollbackQueue.accounted_start (shares : Shares) : (start shares).Accounted := ⟨rfl, rfl⟩

theorem RollbackQueue.Accounted.moved (h : q.Accounted) (henq : q'.enqueued = q.enqueued)
    (happ : q'.applied = q.applied) (hfail : q'.failed = q.failed) (hpend : q'.pending = q.pending)
    (hheld : q'.dropped + q'.held = q.dropped + q.held) : q'.Accounted := by
  constructor
  · rw [henq, happ, hfail, add_assoc, hheld, ← add_assoc]
    exact h.jobs
  · rw [hpend, hheld]
    exact h.pending

theorem RollbackQueue.Accounted.settled {r : RollbackQueue} {shareId count : ℕ} {ok : Bool} (h : q.Accounted)
    (henq : r.enqueued = q.enqueued) (happ : r.applied = q.applied) (hfail : r.failed = q.failed)
    (hpend : r.pending = q.pending) (hdrop : r.dropped = q.dropped)
    (hheld : q.held = .replicate count shareId + r.held) :
    (applyDownloadCountRollback r shareId count ok).Accounted := by
  have hsame : (applyDownloadCountRollback r shareId count ok).held = r.held := rfl
  constructor
  · rw [hsame]
    show r.enqueued = _
    rw [henq, h.jobs, hheld]
    unfold applyDownloadCountRollback
    cases ok with
    | false =>
      simp only [Bool.false_eq_true, if_false]
      rw [happ, hfail, hdrop]
      abel
    | true =>
      simp only [if_true]
      rw [happ, hfail, hdrop]
      abel
  · rw [hsame]
    show r.pending - count = (r.dropped + r.held).card
    have hcard := h.pending
    rw [hheld] at hcard
    simp only [card_add, card_replicate] at hcard ⊢
    rw [hpend, hdrop]
    omega

theorem accounted_step (h : q.Accounted) (hstep : stepQueue capacity q a = some q') : q'.Accounted := by
  cases a with simp only [stepQueue] at hstep
  | enqueue shareId =>
    split_ifs at hstep
    cases hstep
    constructor
    · show shareId ::ₘ q.enqueued = _
      rw [h.jobs]
      simp only [held, batchOf_cons, DownloadCountRollbackJob.batch, replicate_one, ← singleton_add]
      abel
    · show q.pending + 1 = _
      rw [h.pending]
      simp only [held, batchOf_cons, DownloadCountRollbackJob.batch, replicate_one, card_add, card_singleton]
      omega
  | trySend job =>
    split_ifs at hstep with hjob
    cases hstep
    unfold trySend
    split_ifs
    · refine h.moved rfl rfl rfl rfl ?_
      simp only [held, batchOf_cons, batchOf_erase hjob]
      abel
    · refine h.moved rfl rfl rfl rfl ?_
      simp only [held, batchOf_append, batchOf_cons, batchOf_nil, batchOf_erase hjob]
      abel
    · refine h.moved rfl rfl rfl rfl ?_
      simp only [held, batchOf_cons, batchOf_erase hjob]
      abel
  | pushOverflow job =>
    split_ifs at hstep with hjob
    cases hstep
    refine h.moved rfl rfl rfl rfl ?_
    simp only [held, pushJob, batchOf_erase hjob]
    abel
  | spawnFallback job =>
    split_ifs at hstep with hjob
    cases hstep
    refine h.moved rfl rfl rfl rfl ?_
    simp only [held, batchOf_cons, batchOf_erase hjob]
    abel
  | runFallback job ok =>
    split_ifs at hstep with hjob
    cases hstep
    refine h.settled rfl rfl rfl rfl rfl ?_
    simp only [held, batchOf_erase hjob, DownloadCountRollbackJob.batch]
    abel
  | cancel =>
    cases hstep
    exact h.moved rfl rfl rfl rfl rfl
  | dropSenders =>
    split_ifs at hstep
    cases hstep
    exact h.moved rfl rfl rfl rfl rfl
  | takeOverflow =>
    split_ifs at hstep with htop
    cases hstep
    refine h.moved rfl rfl rfl rfl ?_
    have hbatch : (takeOverflow q).worker.batch = q.overflow := by
      unfold takeOverflow
      split_ifs with hempty
      · exact hempty.symm
      · exact hempty.symm
      · rfl
    show q.dropped + (batchOf q.counted + batchOf q.refused + batchOf q.closed + batchOf q.fallbacks +
      batchOf q.channel + 0 + (takeOverflow q).worker.batch) = _
    rw [hbatch, held, htop, batch]
    abel
  | wake =>
    split_ifs at hstep with hwait
    cases hstep
    refine h.moved rfl rfl rfl rfl ?_
    simp only [held, hwait.1, batch]
  | receive =>
    split_ifs at hstep with hwait
    unfold receive at hstep
    cases hchannel : q.channel with
    | nil =>
      simp only [hchannel] at hstep
      split_ifs at hstep
      cases hstep
      refine h.moved rfl rfl rfl rfl ?_
      simp only [held, hwait.1, hchannel, batch]
    | cons job rest =>
      simp only [hchannel] at hstep
      cases hstep
      refine h.moved rfl rfl rfl rfl ?_
      simp only [held, hwait.1, hchannel, batch, pushJob, batchOf_cons]
      abel
  | tryReceive =>
    split at hstep
    next last batch hworker =>
      cases hstep
      unfold tryReceive
      cases hchannel : q.channel with
      | nil =>
        refine h.moved rfl rfl rfl rfl ?_
        simp only [held, hworker, hchannel, WorkerState.batch]
      | cons job rest =>
        refine h.moved rfl rfl rfl rfl ?_
        simp only [held, hworker, hchannel, WorkerState.batch, pushJob, batchOf_cons]
        abel
    next => cases hstep
  | mergeOverflow =>
    split at hstep
    next last batch hworker =>
      cases hstep
      refine h.moved rfl rfl rfl rfl ?_
      have hbatch := batch_drained last (mergeBatch batch q.overflow)
      show q.dropped + (batchOf q.counted + batchOf q.refused + batchOf q.closed + batchOf q.fallbacks +
        batchOf q.channel + 0 + (WorkerState.drained last (mergeBatch batch q.overflow)).batch) = _
      rw [hbatch, held, hworker, WorkerState.batch, mergeBatch]
      abel
    next => cases hstep
  | apply shareId ok =>
    split at hstep
    next batch hworker =>
      split_ifs at hstep
      cases hstep
      refine h.settled rfl rfl rfl rfl rfl ?_
      have hsplit := batch_split batch shareId
      simp only [held, hworker, WorkerState.batch]
      conv_lhs => rw [hsplit]
      abel
    next => cases hstep
  | nextRound =>
    split_ifs at hstep with hdone
    cases hstep
    refine h.moved rfl rfl rfl rfl ?_
    simp only [held, hdone, batch]
  | dropReceiver =>
    split_ifs at hstep with hleave
    cases hstep
    refine h.moved rfl rfl rfl rfl ?_
    simp only [held, hleave, batch, batchOf_nil]
    abel

theorem accounted_run {G : RollbackQueue → QueueAct → Prop} {shares : Shares}
    (h : Lts.Reach (rollbackQueue capacity) G (.start shares) q) : q.Accounted :=
  h.induct (I := RollbackQueue.Accounted) (accounted_start shares) fun hq _ hstep => accounted_step hq hstep

end Accounting

/-! ### Nothing stranded, nothing lost -/

/-- A push into the map comes while the worker will still look at it, the receiver is dropped when nothing is on its
way to the worker, and the statements on the database succeed. -/
def Prompt (q : RollbackQueue) : QueueAct → Prop
  | .pushOverflow _ => ¬ q.Blocked
  | .dropReceiver => q.channel = [] ∧ q.overflow = 0 ∧ q.refused = []
  | .runFallback _ ok => ok = true
  | .apply _ ok => ok = true
  | _ => True

instance (q : RollbackQueue) (a : QueueAct) : Decidable (Prompt q a) := by
  unfold Prompt
  split <;> infer_instance

/-- What holds between the steps of a prompt run. -/
structure RollbackQueue.Tidy (q : RollbackQueue) : Prop where
  failed : q.failed = 0
  dropped : q.dropped = 0
  blocked : q.Blocked → q.overflow = 0
  running : q.worker ≠ .exited → q.closed = [] ∧ q.fallbacks = []
  exited : q.worker = .exited → q.channel = [] ∧ q.overflow = 0 ∧ q.refused = []

section Tidy

variable {capacity : ℕ} {q q' : RollbackQueue} {a : QueueAct}

theorem RollbackQueue.tidy_start (shares : Shares) : (start shares).Tidy where
  failed := rfl
  dropped := rfl
  blocked := fun _ => rfl
  running := fun _ => ⟨rfl, rfl⟩
  exited := fun h => nomatch h

/-- A worker that goes on to another place of the loop, which is not the wait, with the map as it was or empty. -/
theorem RollbackQueue.Tidy.goesOn (h : q.Tidy) (hfrom : q.worker ≠ .exited) (hto : q'.worker ≠ .exited)
    (hwait : q'.worker ≠ .waiting) (hfailed : q'.failed = q.failed) (hdropped : q'.dropped = q.dropped)
    (hclosed : q'.closed = q.closed) (hfallbacks : q'.fallbacks = q.fallbacks) : q'.Tidy where
  failed := hfailed.trans h.failed
  dropped := hdropped.trans h.dropped
  blocked := fun hb => absurd hb.1 hwait
  running := fun _ => by
    rw [hclosed, hfallbacks]
    exact h.running hfrom
  exited := fun he => absurd he hto

theorem WorkerState.drained_ne (last : Bool) (batch : Batch) :
    drained last batch ≠ .exited ∧ drained last batch ≠ .waiting := by
  cases last with
  | false => exact ⟨nofun, nofun⟩
  | true =>
    unfold drained
    dsimp only
    split_ifs
    all_goals exact ⟨nofun, nofun⟩

theorem tidy_step (h : q.Tidy) (hprompt : Prompt q a) (hstep : stepQueue capacity q a = some q') : q'.Tidy := by
  cases a with simp only [stepQueue] at hstep
  | enqueue shareId =>
    split_ifs at hstep
    cases hstep
    exact ⟨h.failed, h.dropped, h.blocked, h.running, h.exited⟩
  | trySend job =>
    split_ifs at hstep with hjob
    cases hstep
    unfold trySend
    split_ifs with hexited hroom
    · exact ⟨h.failed, h.dropped, h.blocked, fun hne => absurd hexited hne, h.exited⟩
    · refine ⟨h.failed, h.dropped, fun hb => ?_, h.running, fun he => absurd he hexited⟩
      -- a channel with a job in it wakes the worker up
      exact absurd hb.2.1 (List.append_ne_nil_of_right_ne_nil _ (List.cons_ne_nil _ _))
    · exact ⟨h.failed, h.dropped, h.blocked, h.running, fun he => absurd he hexited⟩
  | pushOverflow job =>
    split_ifs at hstep with hjob
    cases hstep
    refine ⟨h.failed, h.dropped, fun hb => absurd hb hprompt, h.running, fun he => ?_⟩
    rw [(h.exited he).2.2] at hjob
    cases hjob
  | spawnFallback job =>
    split_ifs at hstep with hjob
    cases hstep
    refine ⟨h.failed, h.dropped, h.blocked, fun hne => ?_, h.exited⟩
    rw [(h.running hne).1] at hjob
    cases hjob
  | runFallback job ok =>
    split_ifs at hstep with hjob
    cases hstep
    obtain rfl : ok = true := hprompt
    refine ⟨h.failed, h.dropped, h.blocked, fun hne => ?_, h.exited⟩
    rw [(h.running hne).2] at hjob
    cases hjob
  | cancel =>
    cases hstep
    exact ⟨h.failed, h.dropped, fun hb => (nomatch hb.2.2.1), h.running, h.exited⟩
  | dropSenders =>
    split_ifs at hstep
    cases hstep
    exact ⟨h.failed, h.dropped, fun hb => (nomatch hb.2.2.2), h.running, h.exited⟩
  | takeOverflow =>
    split_ifs at hstep with htop
    cases hstep
    have hne : q.worker ≠ .exited := by
      rw [htop]
      nofun
    have hto : (takeOverflow q).worker ≠ .exited := by
      unfold takeOverflow
      split_ifs <;> nofun
    exact ⟨h.failed, h.dropped, fun _ => rfl, fun _ => h.running hne, fun he => absurd he hto⟩
  | wake =>
    split_ifs at hstep with hwait
    cases hstep
    refine h.goesOn ?_ nofun nofun rfl rfl rfl rfl
    rw [hwait.1]
    nofun
  | receive =>
    split_ifs at hstep with hwait
    have hne : q.worker ≠ .exited := by
      rw [hwait.1]
      nofun
    unfold receive at hstep
    split at hstep
    · cases hstep
      exact h.goesOn hne nofun nofun rfl rfl rfl rfl
    · split_ifs at hstep
      cases hstep
      exact h.goesOn hne nofun nofun rfl rfl rfl rfl
  | tryReceive =>
    split at hstep
    next last batch hworker =>
      cases hstep
      have hne : q.worker ≠ .exited := by
        rw [hworker]
        nofun
      unfold tryReceive
      split
      all_goals exact h.goesOn hne nofun nofun rfl rfl rfl rfl
    next => cases hstep
  | mergeOverflow =>
    split at hstep
    next last batch hworker =>
      cases hstep
      obtain ⟨hto, hwait⟩ := drained_ne last (mergeBatch batch q.overflow)
      refine h.goesOn ?_ hto hwait rfl rfl rfl rfl
      rw [hworker]
      nofun
    next => cases hstep
  | apply shareId ok =>
    split at hstep
    next batch hworker =>
      split_ifs at hstep
      cases hstep
      obtain rfl : ok = true := hprompt
      refine h.goesOn ?_ nofun nofun rfl rfl rfl rfl
      rw [hworker]
      nofun
    next => cases hstep
  | nextRound =>
    split_ifs at hstep with hdone
    cases hstep
    refine h.goesOn ?_ nofun nofun rfl rfl rfl rfl
    rw [hdone]
    nofun
  | dropReceiver =>
    split_ifs at hstep with hleave
    cases hstep
    obtain ⟨hchannel, hoverflow, hrefused⟩ := hprompt
    refine ⟨h.failed, ?_, fun hb => (nomatch hb.1), fun hne => absurd rfl hne, fun _ => ⟨rfl, hoverflow, hrefused⟩⟩
    show q.dropped + batchOf q.channel = 0
    rw [h.dropped, hchannel]
    rfl

theorem tidy_run {shares : Shares} (h : Lts.Reach (rollbackQueue capacity) Prompt (.start shares) q) : q.Tidy :=
  h.induct (I := RollbackQueue.Tidy) (tidy_start shares) fun hq hg hstep => tidy_step hq hg hstep

theorem RollbackQueue.Accounted.once (h : q.Accounted) : q.applied ≤ q.enqueued := by
  rw [h.jobs, add_assoc, add_assoc]
  exact le_add_right _ _

theorem RollbackQueue.Tidy.faithful (h : q.Tidy) (hacc : q.Accounted) : q.Faithful where
  once := hacc.once
  stranded := by
    rintro hb ⟨hcounted, hrefused, hclosed⟩
    have hne : q.worker ≠ .exited := by
      rw [hb.1]
      nofun
    have hnone : q.held = 0 := by
      rw [held, hcounted, hrefused, hclosed, (h.running hne).2, hb.2.1, h.blocked hb, hb.1]
      rfl
    refine ⟨h.blocked hb, ?_⟩
    rw [hacc.pending, h.dropped, hnone]
    rfl
  lost := by
    rintro he ⟨hcounted, hrefused, hclosed⟩ hfallbacks
    obtain ⟨hchannel, hoverflow, -⟩ := h.exited he
    have hnone : q.held = 0 := by
      rw [held, hcounted, hrefused, hclosed, hfallbacks, hchannel, hoverflow, he]
      rfl
    rw [hacc.jobs, h.failed, h.dropped, hnone]
    simp

end Tidy

/-- **Rollbacks are applied once, and none stays behind**, in every prompt run; that none is applied twice holds
in every run. -/
theorem rollbacks_neither_stranded_nor_lost (capacity : ℕ) (shares : Shares) :
    (∀ q, Lts.Reach (rollbackQueue capacity) Lts.free (.start shares) q → q.applied ≤ q.enqueued) ∧
      ∀ q, Lts.Reach (rollbackQueue capacity) Prompt (.start shares) q → q.Faithful :=
  ⟨fun _ h => (accounted_run h).once, fun _ h => (tidy_run h).faithful (accounted_run h)⟩

theorem rollbacks_neither_stranded_nor_lost_one :
    ∃ q, Lts.Reach (rollbackQueue 1) Prompt (.start .empty) q ∧ q.worker = .exited ∧ q.applied = {7, 7} ∧ q.Faithful := by
  have hrun : ((rollbackQueue 1).run Prompt
      [.takeOverflow, .enqueue 7, .trySend ⟨7, 1⟩, .receive, .tryReceive, .mergeOverflow, .apply 7 true, .nextRound,
        .cancel, .takeOverflow, .wake, .takeOverflow, .tryReceive, .mergeOverflow, .dropReceiver, .enqueue 7,
        .trySend ⟨7, 1⟩, .spawnFallback ⟨7, 1⟩, .runFallback ⟨7, 1⟩ true] (.start .empty)).map
      (fun q => (decide (q.worker = .exited), decide (q.applied = {7, 7}))) = some (true, true) := by
    decide
  obtain ⟨q, hrun, hq⟩ := Option.map_eq_some_iff.mp hrun
  simp only [Prod.mk.injEq, decide_eq_true_eq] at hq
  have hreach := Lts.reach_of_run hrun
  exact ⟨q, hreach, hq.1, hq.2, (rollbacks_neither_stranded_nor_lost 1 .empty).2 q hreach⟩

/-- A rollback is refused by the full channel, the worker takes what is there and waits, and only then the rollback
comes into the map. -/
def strandedSchedule : List QueueAct :=
  [.takeOverflow, .enqueue 7, .trySend ⟨7, 1⟩, .enqueue 7, .trySend ⟨7, 1⟩, .receive, .tryReceive, .mergeOverflow,
    .apply 7 true, .nextRound, .takeOverflow, .pushOverflow ⟨7, 1⟩]

/-- The worker has looked for the last time when a rollback is sent. -/
def lostSchedule : List QueueAct :=
  [.takeOverflow, .cancel, .wake, .takeOverflow, .tryReceive, .enqueue 7, .mergeOverflow, .trySend ⟨7, 1⟩,
    .dropReceiver]

theorem rollback_stranded :
    ∃ q q', Lts.Reach (rollbackQueue 1) Lts.free (.start .empty) q ∧ q.Blocked ∧ q.NoCalls ∧ q.overflow = {7} ∧
      q.pending = 1 ∧
      Lts.Reach (rollbackQueue 1) Lts.free (.start .empty) q' ∧ q'.worker = .exited ∧ q'.NoCalls ∧
      q'.fallbacks = [] ∧ q'.enqueued = {7} ∧ q'.applied = 0 := by
  have hstranded : ((rollbackQueue 1).run Lts.free strandedSchedule (.start .empty)).map
      (fun q => (decide q.Blocked, decide q.NoCalls, decide (q.overflow = {7}), q.pending)) =
        some (true, true, true, 1) := by
    decide
  have hlost : ((rollbackQueue 1).run Lts.free lostSchedule (.start .empty)).map
      (fun q => (decide (q.worker = .exited), decide q.NoCalls, decide (q.fallbacks = []), decide (q.enqueued = {7}),
        decide (q.applied = 0))) = some (true, true, true, true, true) := by
    decide
  obtain ⟨q, hrun, hq⟩ := Option.map_eq_some_iff.mp hstranded
  obtain ⟨q', hrun', hq'⟩ := Option.map_eq_some_iff.mp hlost
  simp only [Prod.mk.injEq, decide_eq_true_eq] at hq hq'
  obtain ⟨hblocked, hcalls, hoverflow, hpending⟩ := hq
  obtain ⟨hexited, hcalls', hfallbacks, henqueued, happlied⟩ := hq'
  exact ⟨q, q', Lts.reach_of_run hrun, hblocked, hcalls, hoverflow, hpending, Lts.reach_of_run hrun', hexited, hcalls',
    hfallbacks, henqueued, happlied⟩

end AsterDrive.Sharing
