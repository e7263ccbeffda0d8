import AsterDrive.Lib.Interleave
import AsterDrive.Tasks.Repo

/-!
# Tasks/Fencing — what a lease can still write

Every statement on a task row, from whoever, in any order. A worker that lost its lease may send any of
its statements at any later time, so a statement comes with whatever id and token it was built with, and
with any reading of the clock. `RowStep` says once what a statement that hits a row does to it; the
fencing follows from it.

The state has two ghosts: the leases that claims returned, and the leases that ended an attempt.
-/

namespace AsterDrive.Tasks

open Interleave List Option

/-- The statements that write one row. -/
inductive Statement
  | claim (id expectedProcessingToken now leaseExpiresAt : ℕ)
  | heartbeat (id processingToken now leaseExpiresAt : ℕ)
  | progress (u : TaskProgressUpdate)
  | runtimeJson (id processingToken : ℕ) (runtimeJson : Option String) (now : ℕ)
  | displayName (id processingToken : ℕ) (displayName : String) (now : ℕ)
  | succeeded (u : TaskSuccessUpdate)
  | retry (id processingToken : ℕ) (attemptCount : ℤ) (nextRunAt : ℕ) (lastError : String)
      (stepsJson : Option String) (now : ℕ)
  | release (id processingToken now : ℕ) (status : BackgroundTaskStatus)
  | failed (u : TaskFailureUpdate)
  | acknowledge (id processingToken now expiresAt : ℕ)
  | requestCancel (id now expiresAt : ℕ)
  | manualRetry (id now : ℕ) (maxAttempts : ℤ) (stepsJson : Option String)
  | refreshSystemRuntime (id : ℕ) (resultJson : String) (statusText : Option String)
      (nextRunAt startedAt finishedAt expiresAt : ℕ)

open Statement

namespace Statement

/-- The lease that a statement is sent with. -/
def lease : Statement → Option (ℕ × ℕ)
  | heartbeat id token _ _ | runtimeJson id token _ _ | displayName id token _ _ => some (id, token)
  | retry id token _ _ _ _ _ | release id token _ _ | acknowledge id token _ _ => some (id, token)
  | progress u => some (u.id, u.processingToken)
  | succeeded u => some (u.id, u.processingToken)
  | failed u => some (u.id, u.processingToken)
  | claim _ _ _ _ | requestCancel _ _ _ | manualRetry _ _ _ _ | refreshSystemRuntime _ _ _ _ _ _ _ => none

/-- The statements that end an attempt: succeeded, retry, released, failed, canceled. -/
def endsAttempt : Statement → Bool
  | succeeded _ | retry _ _ _ _ _ _ _ | release _ _ _ _ | failed _ | acknowledge _ _ _ _ => true
  | _ => false

/-- The statements that move the end of the lease. -/
def renews : Statement → Bool
  | heartbeat _ _ _ _ | progress _ => true
  | _ => false

/-- The status in which a lease may write: a cancellation is acknowledged while it is requested, and
everything else is written while the task is processed. -/
def leaseStatus : Statement → BackgroundTaskStatus
  | acknowledge _ _ _ _ => .canceling
  | _ => .processing

variable (nextToken : ℕ → Option ℕ)

/-- The guarded update behind a statement; `none` if it is refused before it is sent. -/
def update : Statement → Option GuardedUpdate
  | claim id expected now lease => (nextToken expected).map fun next => tryClaim id expected now next lease
  | heartbeat id token now lease => some (touchHeartbeat id token now lease)
  | progress u => some (markProgress u)
  | runtimeJson id token json now => some (setRuntimeJson id token json now)
  | displayName id token name now => some (setDisplayName id token name now)
  | succeeded u => some (markSucceeded u)
  | retry id token attempts nextRunAt error steps now =>
    some (markRetry id token attempts nextRunAt error steps now)
  | release id token now status => (releaseProcessing id token now status).toOption
  | failed u => some (markFailed u)
  | acknowledge id token now expiresAt => some (acknowledgeCancel id token now expiresAt)
  | requestCancel id now expiresAt => some (Tasks.requestCancel id now expiresAt)
  | manualRetry id now maxAttempts steps => some (resetForManualRetry id now maxAttempts steps)
  | refreshSystemRuntime id result text nextRunAt startedAt finishedAt expiresAt =>
    some (refreshSystemRuntimeSuccess id result text nextRunAt startedAt finishedAt expiresAt)

/-- The statement on the table: whether it changed a row. -/
def exec (s : Statement) (t : BackgroundTasks) : Bool × BackgroundTasks :=
  match s.update nextToken with
  | none => (false, t)
  | some u => u.exec t

end Statement

/-! ### What a statement does to the row it hits -/

/-- A statement hits the row `r` and makes it `r'`. -/
inductive RowStep (nextToken : ℕ → Option ℕ) : Statement → BackgroundTask → BackgroundTask → Prop
  | claim {r r' : BackgroundTask} {now lease next : ℕ} (hnext : nextToken r.processingToken = some next)
      (hclaimable : claimable now r) (htoken : r'.processingToken = next)
      (hstatus : r'.status = if r.status = .canceling then .canceling else .processing)
      (hlease : r'.leaseExpiresAt = some lease) :
      RowStep nextToken (.claim r.id r.processingToken now lease) r r'
  /-- heartbeat, progress, runtime and display name -/
  | keep {s : Statement} {r r' : BackgroundTask} (hlease : s.lease = some (r.id, r.processingToken))
      (hend : s.endsAttempt = false) (hneeded : s.leaseStatus = r.status) (hstatus : r.status = .processing)
      (htoken : r'.processingToken = r.processingToken) (hstatus' : r'.status = .processing)
      (hsame : s.renews = false → r'.leaseExpiresAt = r.leaseExpiresAt) : RowStep nextToken s r r'
  /-- the attempt ends -/
  | finish {s : Statement} {r r' : BackgroundTask} (hlease : s.lease = some (r.id, r.processingToken))
      (hend : s.endsAttempt = true) (hneeded : s.leaseStatus = r.status)
      (hstatus : r.status = .processing ∧
          (r'.status = .succeeded ∨ r'.status = .retry ∨ r'.status = .pending ∨ r'.status = .failed) ∨
        r.status = .canceling ∧ r'.status = .canceled)
      (htoken : r'.processingToken = r.processingToken) (hfree : r'.leaseExpiresAt = none) : RowStep nextToken s r r'
  | cancelQueued {r r' : BackgroundTask} {now expiresAt : ℕ}
      (hstatus : r.status = .pending ∨ r.status = .retry) (hstatus' : r'.status = .canceled)
      (htoken : r'.processingToken = r.processingToken) (hfree : r'.leaseExpiresAt = none) :
      RowStep nextToken (.requestCancel r.id now expiresAt) r r'
  | cancelRunning {r r' : BackgroundTask} {now expiresAt : ℕ} (hstatus : r.status = .processing)
      (hstatus' : r'.status = .canceling) (htoken : r'.processingToken = r.processingToken)
      (hlease : r'.leaseExpiresAt = r.leaseExpiresAt) :
      RowStep nextToken (.requestCancel r.id now expiresAt) r r'
  | reset {r r' : BackgroundTask} {now : ℕ} {maxAttempts : ℤ} {stepsJson : Option String}
      (hstatus : r.status = .failed ∨ r.status = .canceled) (hstatus' : r'.status = .pending)
      (htoken : r'.processingToken = r.processingToken) (hfree : r'.leaseExpiresAt = none) :
      RowStep nextToken (.manualRetry r.id now maxAttempts stepsJson) r r'
  | refresh {r r' : BackgroundTask} {result : String} {text : Option String}
      {nextRunAt startedAt finishedAt expiresAt : ℕ} (hstatus : r.status = .succeeded)
      (hstatus' : r'.status = .succeeded) (htoken : r'.processingToken = r.processingToken)
      (hfree : r'.leaseExpiresAt = none) :
      RowStep nextToken (.refreshSystemRuntime r.id result text nextRunAt startedAt finishedAt expiresAt) r r'

section

variable {nextToken : ℕ → Option ℕ} {s : Statement} {u : GuardedUpdate} {r : BackgroundTask} {t : BackgroundTasks} {i : ℕ}

theorem leased_iff {token : ℕ} : leased token r = true ↔ r.status = .processing ∧ r.processingToken = token := by
  simp [leased]

theorem rowStep_of_hit (hu : s.update nextToken = some u) (hid : r.id = u.id) (hg : u.guard r = true) :
    RowStep nextToken s r (u.set r) := by
  cases s with
  | claim id expected now lease =>
    obtain ⟨next, hnext, rfl⟩ := map_eq_some_iff.mp hu
    obtain ⟨htoken, hclaim⟩ := Bool.and_eq_true_iff.mp hg
    obtain rfl : r.processingToken = expected := of_decide_eq_true htoken
    obtain rfl : r.id = id := hid
    exact .claim hnext hclaim rfl rfl rfl
  | heartbeat id token now lease =>
    cases hu
    obtain ⟨hstatus, rfl⟩ := (leased_iff).mp hg
    obtain rfl : r.id = id := hid
    exact .keep rfl rfl hstatus.symm hstatus rfl hstatus (by simp [renews])
  | progress p =>
    cases hu
    obtain ⟨hstatus, htoken⟩ := (leased_iff).mp hg
    have hlease : lease (.progress p) = some (r.id, r.processingToken) := by
      rw [htoken, hid]
      rfl
    exact .keep hlease rfl hstatus.symm hstatus rfl hstatus (by simp [renews])
  | runtimeJson id token json now | displayName id token name now =>
    cases hu
    obtain ⟨hstatus, rfl⟩ := (leased_iff).mp hg
    obtain rfl : r.id = id := hid
    exact .keep rfl rfl hstatus.symm hstatus rfl hstatus fun _ => rfl
  | succeeded p =>
    cases hu
    obtain ⟨hstatus, htoken⟩ := (leased_iff).mp hg
    have hlease : lease (.succeeded p) = some (r.id, r.processingToken) := by
      rw [htoken, hid]
      rfl
    exact .finish hlease rfl hstatus.symm (.inl ⟨hstatus, .inl rfl⟩) rfl rfl
  | retry id token attempts nextRunAt error steps now =>
    cases hu
    obtain ⟨hstatus, rfl⟩ := (leased_iff).mp hg
    obtain rfl : r.id = id := hid
    exact .finish rfl rfl hstatus.symm (.inl ⟨hstatus, .inr (.inl rfl)⟩) rfl rfl
  | release id token now status =>
    replace hu : (releaseProcessing id token now status).toOption = some u := hu
    unfold releaseProcessing at hu
    split_ifs at hu with hto
    · cases hu
      obtain ⟨hstatus, rfl⟩ := (leased_iff).mp hg
      obtain rfl : r.id = id := hid
      refine .finish rfl rfl hstatus.symm (.inl ⟨hstatus, .inr ?_⟩) rfl rfl
      rcases hto with rfl | rfl
      · exact .inr (.inl rfl)
      · exact .inl rfl
    · cases hu
  | failed p =>
    cases hu
    obtain ⟨hstatus, htoken⟩ := (leased_iff).mp hg
    have hlease : lease (.failed p) = some (r.id, r.processingToken) := by
      rw [htoken, hid]
      rfl
    exact .finish hlease rfl hstatus.symm (.inl ⟨hstatus, .inr (.inr (.inr rfl))⟩) rfl rfl
  | acknowledge id token now expiresAt =>
    cases hu
    obtain ⟨htoken, hstatus⟩ := Bool.and_eq_true_iff.mp hg
    obtain rfl : r.processingToken = token := of_decide_eq_true htoken
    obtain rfl : r.id = id := hid
    have hstatus := of_decide_eq_true hstatus
    exact .finish rfl rfl hstatus.symm (.inr ⟨hstatus, rfl⟩) rfl rfl
  | requestCancel id now expiresAt =>
    cases hu
    obtain rfl : r.id = id := hid
    obtain ⟨-, hstatus⟩ := Bool.and_eq_true_iff.mp hg
    by_cases hq : queued r = true
    · have hset : (requestCancel r.id now expiresAt).set r = cancelQueued now expiresAt r := if_pos hq
      rw [hset]
      refine .cancelQueued ?_ rfl rfl rfl
      simpa [queued] using hq
    · have hset : (requestCancel r.id now expiresAt).set r = cancelRunning now r := if_neg hq
      rw [hset]
      refine .cancelRunning ?_ rfl rfl rfl
      simpa [hq] using hstatus
  | manualRetry id now maxAttempts steps =>
    cases hu
    obtain rfl : r.id = id := hid
    have hstatus : r.status = .failed ∨ r.status = .canceled := by simpa [resetForManualRetry] using hg
    exact .reset hstatus rfl rfl rfl
  | refreshSystemRuntime id result text nextRunAt startedAt finishedAt expiresAt =>
    cases hu
    obtain ⟨-, hstatus⟩ := Bool.and_eq_true_iff.mp hg
    obtain rfl : r.id = id := hid
    exact .refresh (of_decide_eq_true hstatus) rfl rfl rfl

theorem Statement.get_exec_cases (nextToken : ℕ → Option ℕ) (s : Statement) (h : t.get i = some r) :
    (s.exec nextToken t).2.get i = some r ∨
      ∃ r', (s.exec nextToken t).1 = true ∧ (s.exec nextToken t).2.get i = some r' ∧ RowStep nextToken s r r' := by
  unfold exec
  cases hu : s.update nextToken with
  | none => exact .inl h
  | some u =>
    rcases GuardedUpdate.get_exec_cases (u := u) h with hsame | ⟨hi, hg, hok, hset⟩
    · exact .inl hsame
    · exact .inr ⟨u.set r, hok, hset, rowStep_of_hit hu ((Table.key_of_get h).trans hi) hg⟩

theorem Statement.exec_hit (h : (s.exec nextToken t).1 = true) :
    ∃ r r', t.get r.id = some r ∧ (s.exec nextToken t).2.get r.id = some r' ∧ RowStep nextToken s r r' := by
  unfold exec at h ⊢
  cases hu : s.update nextToken with
  | none => simp [hu] at h
  | some u =>
    rw [hu] at h
    obtain ⟨r, hr, hg⟩ := GuardedUpdate.exec_fst.mp h
    have hid := Table.key_of_get hr
    refine ⟨r, u.set r, hid ▸ hr, ?_, rowStep_of_hit hu hid hg⟩
    have hhit : u.hits r = true := Bool.and_eq_true_iff.mpr ⟨decide_eq_true hid, hg⟩
    rw [hid, GuardedUpdate.get_exec, hr, map_some, if_pos hhit]

theorem Statement.kind_exec {r' : BackgroundTask} (h : t.get i = some r)
    (h' : (s.exec nextToken t).2.get i = some r') : r'.kind = r.kind := by
  unfold exec at h'
  cases hu : s.update nextToken with
  | none =>
    rw [hu] at h'
    rw [some.inj (h'.symm.trans h)]
  | some u =>
    have hset : ∀ x, (u.set x).kind = x.kind := by
      intro x
      cases s with
      | claim id expected now lease =>
        obtain ⟨next, -, rfl⟩ := map_eq_some_iff.mp hu
        rfl
      | release id token now status =>
        replace hu : (releaseProcessing id token now status).toOption = some u := hu
        unfold releaseProcessing at hu
        split_ifs at hu
        · cases hu
          rfl
        · cases hu
      | requestCancel id now expiresAt =>
        cases hu
        show (if queued x then cancelQueued now expiresAt x else cancelRunning now x).kind = x.kind
        split_ifs <;> rfl
      | _ =>
        cases hu
        rfl
    simp only [hu, GuardedUpdate.get_exec, h, map_some, some.injEq] at h'
    rw [← h']
    split_ifs
    · exact hset r
    · rfl

theorem Statement.exec_miss (h : (s.exec nextToken t).1 = false) : (s.exec nextToken t).2 = t := by
  unfold exec at h ⊢
  cases hu : s.update nextToken with
  | none => rfl
  | some u =>
    rw [hu] at h
    exact GuardedUpdate.exec_miss h

theorem Statement.exec_next : (s.exec nextToken t).2.next = t.next := by
  unfold exec
  cases s.update nextToken <;> rfl

theorem Statement.get_exec_some {r' : BackgroundTask} (h : (s.exec nextToken t).2.get i = some r') :
    ∃ r, t.get i = some r ∧ (r' = r ∨ RowStep nextToken s r r') := by
  cases hr : t.get i with
  | none =>
    unfold exec at h
    cases hu : s.update nextToken with
    | none => simp [hu, hr] at h
    | some u => simp [hu, GuardedUpdate.get_exec, hr] at h
  | some r =>
    rcases get_exec_cases nextToken s hr with hsame | ⟨r'', -, hset, hstep⟩
    · exact ⟨r, rfl, .inl (some.inj (h.symm.trans hsame))⟩
    · obtain rfl := some.inj (h.symm.trans hset)
      exact ⟨r, rfl, .inr hstep⟩

end

/-! ### Runs -/

/-- `TerminalTaskCleanupFilters`. -/
structure TerminalTaskCleanupFilters where
  finishedBefore : ℕ
  kind : Option BackgroundTaskKind
  status : Option BackgroundTaskStatus

/-- `terminal_cleanup_condition`. -/
def terminalCleanup (f : TerminalTaskCleanupFilters) (r : BackgroundTask) : Bool :=
  (match f.status with
    | some status => decide (r.status = status)
    | none => r.status.isTerminal) &&
  (f.kind.all fun kind => decide (r.kind = kind)) &&
  (match r.finishedAt with
    | some finishedAt => decide (finishedAt ≤ f.finishedBefore)
    | none => decide (r.updatedAt ≤ f.finishedBefore))

/-- `cleanup_tasks_for_admin`; only terminal statuses may be asked for. -/
def cleanupTasksForAdmin (t : BackgroundTasks) (f : TerminalTaskCleanupFilters) : BackgroundTasks :=
  if f.status.any fun status => !status.isTerminal then t else t.deleteRows (terminalCleanup f)

/-- The row that `into_active_model` inserts: nobody has claimed it. -/
def BackgroundTask.unclaimed (r : BackgroundTask) (id : ℕ) : BackgroundTask :=
  { r.withoutLease with id, runtimeJson := none, attemptCount := 0, processingToken := 0 }

theorem BackgroundTask.unclaimed_id (r : BackgroundTask) (id : ℕ) : (r.unclaimed id).id = id := rfl

/-- The tasks, the clock, and what was seen so far: the leases that claims returned, and the leases that
ended an attempt. -/
structure State where
  tasks : BackgroundTasks
  now : ℕ := 0
  claims : List (ℕ × ℕ) := []
  ended : List (ℕ × ℕ) := []

inductive Act
  | statement (s : Statement)
  | create (row : BackgroundTask)
  | cleanup (filters : TerminalTaskCleanupFilters)
  | advance (now : ℕ)

namespace Act

variable (nextToken : ℕ → Option ℕ)

/-- The lease that a claim returned. -/
def claimed (s : Statement) (t : BackgroundTasks) : List (ℕ × ℕ) :=
  match s with
  | .claim id expected _ _ => if (s.exec nextToken t).1 then (nextToken expected).toList.map (id, ·) else []
  | _ => []

/-- The lease that ended its attempt. -/
def finished (s : Statement) (t : BackgroundTasks) : List (ℕ × ℕ) :=
  if s.endsAttempt && (s.exec nextToken t).1 then s.lease.toList else []

def apply (s : State) : Act → State
  | statement st =>
    { tasks := (st.exec nextToken s.tasks).2
      now := s.now
      claims := claimed nextToken st s.tasks ++ s.claims
      ended := finished nextToken st s.tasks ++ s.ended }
  | create row => { s with tasks := s.tasks.insert row.unclaimed row.unclaimed_id }
  | cleanup filters => { s with tasks := cleanupTasksForAdmin s.tasks filters }
  | advance now => { s with now := max s.now now }

end Act

/-- Whoever it is, its statements are atomic; nobody keeps anything between them that matters here. -/
def system (nextToken : ℕ → Option ℕ) : System State Unit Act where
  step a s _ := some (a.apply nextToken s, ())

/-- No claim and no end has been seen. -/
def start (t : BackgroundTasks) : Config State Unit := ⟨{ tasks := t }, fun _ => ()⟩

/-! ### The invariant -/

/-- A lease that ended its attempt cannot do so again: there is a newer token, or nobody processes. -/
def Over (token : ℕ) (r : BackgroundTask) : Prop :=
  token < r.processingToken ∨ token = r.processingToken ∧ r.status ≠ .processing ∧ r.status ≠ .canceling

/-- What the ghosts know about the rows. Rows may go, but no row comes back. -/
structure Fenced (s : State) : Prop where
  claims : ∀ i token, (i, token) ∈ s.claims → i < s.tasks.next ∧ ∀ r, s.tasks.get i = some r → token ≤ r.processingToken
  ended : ∀ i token, (i, token) ∈ s.ended → i < s.tasks.next ∧ ∀ r, s.tasks.get i = some r → Over token r
  claimsOnce : s.claims.Nodup
  endedOnce : s.ended.Nodup

/-- What one step may do. -/
structure Allowed (a : Act) (s s' : State) : Prop where
  token : ∀ i r r', s.tasks.get i = some r → s'.tasks.get i = some r' → r'.processingToken ≠ r.processingToken →
      r.processingToken < r'.processingToken ∧ s'.claims = (i, r'.processingToken) :: s.claims
  claim : ∀ p, s'.claims = p :: s.claims → ∃ r r', s.tasks.get p.1 = some r ∧ s'.tasks.get p.1 = some r' ∧
    r.processingToken < r'.processingToken ∧ r'.processingToken = p.2
  lease : ∀ st id token, a = .statement st → st.lease = some (id, token) → ∀ i r, s.tasks.get i = some r →
    s'.tasks.get i ≠ some r → i = id ∧ r.processingToken = token ∧ r.status = st.leaseStatus
  canceling : ∀ i r, s.tasks.get i = some r → r.status = .canceling →
    ∃ r', s'.tasks.get i = some r' ∧ (r'.status = .canceling ∨ r'.status = .canceled)
  succeeded : ∀ i r r', s.tasks.get i = some r → s'.tasks.get i = some r' → r.status = .succeeded →
    r'.status = .succeeded

section

variable {nextToken : ℕ → Option ℕ} {st : Statement} {s : State} {r r' : BackgroundTask} {token : ℕ} {a : Act}

theorem RowStep.token_le (hnext : ∀ t n, nextToken t = some n → t < n) (h : RowStep nextToken st r r') :
    r.processingToken ≤ r'.processingToken := by
  cases h with
  | claim hn hclaimable htoken =>
    rw [htoken]
    exact (hnext _ _ hn).le
  | keep _ _ _ _ htoken | finish _ _ _ _ htoken | cancelQueued _ _ htoken | cancelRunning _ _ htoken
  | reset _ _ htoken | refresh _ _ htoken => exact htoken.ge

theorem RowStep.over (hnext : ∀ t n, nextToken t = some n → t < n) (h : RowStep nextToken st r r')
    (hover : Over token r) : Over token r' := by
  have hle := h.token_le hnext
  rcases hover with hlt | ⟨rfl, hp, hc⟩
  · exact .inl (hlt.trans_le hle)
  · cases h with
    | claim hn hclaimable htoken =>
      left
      rw [htoken]
      exact hnext _ _ hn
    | keep _ _ _ hstatus | cancelRunning hstatus => exact absurd hstatus hp
    | finish _ _ _ hstatus =>
      rcases hstatus with ⟨hstatus, -⟩ | ⟨hstatus, -⟩
      · exact absurd hstatus hp
      · exact absurd hstatus hc
    | cancelQueued _ hstatus' htoken | reset _ hstatus' htoken | refresh _ hstatus' htoken =>
      exact .inr ⟨htoken.symm, by simp [hstatus'], by simp [hstatus']⟩

theorem RowStep.over_of_finish (h : RowStep nextToken st r r') (hend : st.endsAttempt = true) :
    st.lease = some (r.id, r.processingToken) ∧ Over r.processingToken r' ∧ ¬ Over r.processingToken r := by
  cases h with
  | finish hlease _ _ hstatus htoken =>
    refine ⟨hlease, .inr ⟨htoken.symm, ?_, ?_⟩, ?_⟩
    · rcases hstatus with ⟨-, h | h | h | h⟩ | ⟨-, h⟩ <;> simp [h]
    · rcases hstatus with ⟨-, h | h | h | h⟩ | ⟨-, h⟩ <;> simp [h]
    · rintro (hlt | ⟨-, hp, hc⟩)
      · exact lt_irrefl _ hlt
      · rcases hstatus with ⟨hstatus, -⟩ | ⟨hstatus, -⟩
        · exact hp hstatus
        · exact hc hstatus
  | claim hn hclaimable htoken | cancelQueued _ _ htoken | cancelRunning _ _ htoken | reset _ _ htoken
  | refresh _ _ htoken => cases hend
  | keep _ hno => simp [hno] at hend

variable {i : ℕ} {t : BackgroundTasks}

theorem mem_claimed (hnext : ∀ t n, nextToken t = some n → t < n) (h : (i, token) ∈ Act.claimed nextToken st t) :
    Act.claimed nextToken st t = [(i, token)] ∧ ∃ r r', t.get i = some r ∧
      (st.exec nextToken t).2.get i = some r' ∧ r.processingToken < token ∧ r'.processingToken = token := by
  cases st with
  | claim id expected now lease =>
    dsimp only [Act.claimed] at h ⊢
    split_ifs at h ⊢ with hok
    · obtain ⟨r, r', hr, hr', hstep⟩ := exec_hit hok
      cases hstep with
      | claim hn hclaimable htoken =>
        rw [hn] at h ⊢
        obtain ⟨rfl, rfl⟩ : i = r.id ∧ token = r'.processingToken := by simpa [htoken] using h
        refine ⟨by simp [htoken], r, r', hr, hr', ?_, rfl⟩
        rw [htoken]
        exact hnext _ _ hn
      | keep hlease | finish hlease => cases hlease
    · cases h
  | _ => cases h

theorem mem_finished (h : (i, token) ∈ Act.finished nextToken st t) :
    Act.finished nextToken st t = [(i, token)] ∧ ∃ r r', t.get i = some r ∧
      (st.exec nextToken t).2.get i = some r' ∧ ¬ Over token r ∧ Over token r' := by
  unfold Act.finished at h ⊢
  split_ifs at h ⊢ with hok
  · obtain ⟨hend, hhit⟩ := Bool.and_eq_true_iff.mp hok
    obtain ⟨r, r', hr, hr', hstep⟩ := exec_hit hhit
    obtain ⟨hlease, hover, hnot⟩ := hstep.over_of_finish hend
    rw [hlease] at h ⊢
    obtain ⟨rfl, rfl⟩ : i = r.id ∧ token = r.processingToken := by simpa using h
    exact ⟨rfl, r, r', hr, hr', hnot, hover⟩
  · cases h

theorem Fenced.statement (hnext : ∀ t n, nextToken t = some n → t < n) (h : Fenced s) (st : Statement) :
    Fenced (Act.apply nextToken s (.statement st)) := by
  have hkeep : ∀ i r', (st.exec nextToken s.tasks).2.get i = some r' → ∃ r, s.tasks.get i = some r ∧
      r.processingToken ≤ r'.processingToken ∧ ∀ token, Over token r → Over token r' := by
    intro i r' hr'
    obtain ⟨r, hr, rfl | hstep⟩ := get_exec_some hr'
    · exact ⟨r', hr, le_rfl, fun _ => id⟩
    · exact ⟨r, hr, hstep.token_le hnext, fun _ => hstep.over hnext⟩
  have hsame : (st.exec nextToken s.tasks).2.next = s.tasks.next := exec_next
  have hlt : ∀ i r, s.tasks.get i = some r → i < (st.exec nextToken s.tasks).2.next := by
    intro i r hr
    rw [hsame]
    exact SerialTable.lt_next_of_get hr
  refine ⟨?_, ?_, ?_, ?_⟩
  · intro i token hmem
    rcases mem_append.mp hmem with hnew | hold
    · obtain ⟨-, r, r', hr, hr', -, htoken⟩ := mem_claimed hnext hnew
      exact ⟨hlt i r hr, fun x hx => by rw [some.inj (hx.symm.trans hr'), htoken]⟩
    · obtain ⟨hi, hle⟩ := h.claims i token hold
      refine ⟨hi.trans_eq hsame.symm, fun r' hr' => ?_⟩
      obtain ⟨r, hr, hmono, -⟩ := hkeep i r' hr'
      exact (hle r hr).trans hmono
  · intro i token hmem
    rcases mem_append.mp hmem with hnew | hold
    · obtain ⟨-, r, r', hr, hr', -, hover⟩ := mem_finished hnew
      exact ⟨hlt i r hr, fun x hx => some.inj (hx.symm.trans hr') ▸ hover⟩
    · obtain ⟨hi, hover⟩ := h.ended i token hold
      refine ⟨hi.trans_eq hsame.symm, fun r' hr' => ?_⟩
      obtain ⟨r, hr, -, hmono⟩ := hkeep i r' hr'
      exact hmono token (hover r hr)
  · -- a token that was returned before is not above the row's token
    show (Act.claimed nextToken st s.tasks ++ s.claims).Nodup
    cases hnew : Act.claimed nextToken st s.tasks with
    | nil => exact h.claimsOnce
    | cons p rest =>
      obtain ⟨i, token⟩ := p
      obtain ⟨heq, r, r', hr, -, hlt', -⟩ := mem_claimed hnext (hnew ▸ mem_cons_self)
      rw [← hnew, heq, singleton_append, nodup_cons]
      refine ⟨fun hold => ?_, h.claimsOnce⟩
      have hle := (h.claims i token hold).2 r hr
      omega
  · -- a lease that ended its attempt before would be over
    show (Act.finished nextToken st s.tasks ++ s.ended).Nodup
    cases hnew : Act.finished nextToken st s.tasks with
    | nil => exact h.endedOnce
    | cons p rest =>
      obtain ⟨i, token⟩ := p
      obtain ⟨heq, r, r', hr, -, hnot, -⟩ := mem_finished (hnew ▸ mem_cons_self)
      rw [← hnew, heq, singleton_append, nodup_cons]
      exact ⟨fun hold => hnot ((h.ended i token hold).2 r hr), h.endedOnce⟩

theorem Fenced.of_rows (h : Fenced s) (hnext : s.tasks.next ≤ t.next)
    (hrows : ∀ i r, t.get i = some r → s.tasks.get i = some r ∨ s.tasks.next ≤ i) :
    Fenced { s with tasks := t } where
  claims i token hmem := by
    obtain ⟨hi, hle⟩ := h.claims i token hmem
    refine ⟨hi.trans_le hnext, fun r hr => ?_⟩
    rcases hrows i r hr with hold | hnew
    · exact hle r hold
    · omega
  ended i token hmem := by
    obtain ⟨hi, hover⟩ := h.ended i token hmem
    refine ⟨hi.trans_le hnext, fun r hr => ?_⟩
    rcases hrows i r hr with hold | hnew
    · exact hover r hold
    · omega
  claimsOnce := h.claimsOnce
  endedOnce := h.endedOnce

theorem get_cleanup {f : TerminalTaskCleanupFilters}
    (h : (cleanupTasksForAdmin t f).get i = some r) : t.get i = some r := by
  unfold cleanupTasksForAdmin at h
  split_ifs at h
  · exact h
  · exact (filter_eq_some_iff.mp ((Table.get_deleteWhere ..).symm.trans h)).1

theorem get_cleanup_of_not_terminal {f : TerminalTaskCleanupFilters}
    (h : t.get i = some r) (hterm : r.status.isTerminal = false) :
    (cleanupTasksForAdmin t f).get i = some r := by
  unfold cleanupTasksForAdmin
  split_ifs with hbad
  · exact h
  · refine (Table.get_deleteWhere ..).trans ?_
    have hno : terminalCleanup f r = false := by
      unfold terminalCleanup
      cases hs : f.status with
      | none => simp [hterm]
      | some status =>
        have hne : r.status ≠ status := by
          rintro rfl
          simp [hs, hterm] at hbad
        simp [hne]
    rw [h, filter_some, hno]
    rfl

theorem Fenced.apply (hnext : ∀ t n, nextToken t = some n → t < n) (h : Fenced s) (a : Act) :
    Fenced (a.apply nextToken s) := by
  cases a with
  | statement st => exact h.statement hnext st
  | create row =>
    refine h.of_rows (Nat.le_succ _) fun i r hr => ?_
    have hid : ∀ n, (row.unclaimed n).id = n := fun _ => rfl
    replace hr := (SerialTable.get_insert s.tasks hid i).symm.trans hr
    split_ifs at hr with hi
    · exact .inr hi.le
    · exact .inl hr
  | cleanup filters =>
    refine h.of_rows ?_ fun i r hr => .inl (get_cleanup hr)
    unfold cleanupTasksForAdmin
    split_ifs <;> exact le_rfl
  | advance now => exact ⟨h.claims, h.ended, h.claimsOnce, h.endedOnce⟩

theorem allowed_statement (hnext : ∀ t n, nextToken t = some n → t < n) (s : State) (st : Statement) :
    Allowed (.statement st) s (Act.apply nextToken s (.statement st)) where
  token := by
    intro i r r' hr hr' hne
    obtain ⟨x, hx, rfl | hstep⟩ := get_exec_some hr'
    · obtain rfl := some.inj (hr.symm.trans hx)
      exact absurd rfl hne
    obtain rfl : r = x := some.inj (hr.symm.trans hx)
    obtain rfl : r.id = i := Table.key_of_get hr
    have hhit : (st.exec nextToken s.tasks).1 = true := by
      rcases get_exec_cases nextToken st hr with hsame | ⟨_, hhit, -⟩
      · obtain rfl := some.inj (hsame.symm.trans hr')
        exact absurd rfl hne
      · exact hhit
    cases hstep with
    | claim hn hclaimable htoken =>
      refine ⟨htoken ▸ hnext _ _ hn, ?_⟩
      show Act.claimed nextToken _ s.tasks ++ s.claims = _
      dsimp only [Act.claimed]
      rw [if_pos hhit, hn, htoken]
      rfl
    | keep _ _ _ _ htoken | finish _ _ _ _ htoken | cancelQueued _ _ htoken | cancelRunning _ _ htoken
    | reset _ _ htoken | refresh _ _ htoken => exact absurd htoken hne
  claim := by
    rintro ⟨i, token⟩ hp
    have hmem : (i, token) ∈ Act.claimed nextToken st s.tasks := by
      have hp : Act.claimed nextToken st s.tasks ++ s.claims = (i, token) :: s.claims := hp
      cases hnew : Act.claimed nextToken st s.tasks with
      | nil =>
        rw [hnew, nil_append] at hp
        exact absurd hp.symm (cons_ne_self _ _)
      | cons q rest =>
        rw [hnew, cons_append] at hp
        rw [(List.cons.inj hp).1]
        exact mem_cons_self
    obtain ⟨-, r, r', hr, hr', hlt, htoken⟩ := mem_claimed hnext hmem
    exact ⟨r, r', hr, hr', htoken ▸ hlt, htoken⟩
  lease := by
    rintro _ id token ⟨⟩ hlease i r hr hne
    rcases get_exec_cases nextToken st hr with hsame | ⟨r', -, -, hstep⟩
    · exact absurd hsame hne
    have hi : r.id = i := Table.key_of_get hr
    cases hstep with
    | claim hn hclaimable htoken | cancelQueued _ _ htoken | cancelRunning _ _ htoken | reset _ _ htoken
    | refresh _ _ htoken => cases hlease
    | keep hl _ hneeded | finish hl _ hneeded =>
      obtain ⟨rfl, rfl⟩ := some_pair_inj (hl.symm.trans hlease)
      exact ⟨hi.symm, rfl, hneeded.symm⟩
  canceling := by
    intro i r hr hstatus
    rcases get_exec_cases nextToken st hr with hsame | ⟨r', -, hr', hstep⟩
    · exact ⟨r, hsame, .inl hstatus⟩
    refine ⟨r', hr', ?_⟩
    cases hstep with
    | claim hn hclaimable htoken hs =>
      rw [if_pos hstatus] at hs
      exact .inl hs
    | keep _ _ _ hp | cancelRunning hp => simp [hstatus] at hp
    | finish _ _ _ hs =>
      rcases hs with ⟨hp, -⟩ | ⟨-, hs⟩
      · simp [hstatus] at hp
      · exact .inr hs
    | cancelQueued hq => simp [hstatus] at hq
    | reset hf => simp [hstatus] at hf
    | refresh hs => simp [hstatus] at hs
  succeeded := by
    intro i r r' hr hr' hstatus
    obtain ⟨x, hx, rfl | hstep⟩ := get_exec_some hr'
    · rw [some.inj (hx.symm.trans hr)]
      exact hstatus
    obtain rfl : r = x := some.inj (hr.symm.trans hx)
    cases hstep with
    | claim hn hclaimable htoken hs => simp [claimable, processingStale, hstatus] at hclaimable
    | keep _ _ _ hp | cancelRunning hp => simp [hstatus] at hp
    | finish _ _ _ hs => simp [hstatus] at hs
    | cancelQueued hq => simp [hstatus] at hq
    | reset hf => simp [hstatus] at hf
    | refresh _ hs => exact hs

theorem allowed_of_rows {now : ℕ} (hno : ∀ st, a ≠ .statement st)
    (hrows : ∀ i r r', s.tasks.get i = some r → t.get i = some r' → r' = r)
    (hstay : ∀ i r, s.tasks.get i = some r → r.status = .canceling → t.get i = some r) :
    Allowed a s { s with tasks := t, now := now } where
  token i r r' hr hr' hne := absurd (congrArg _ (hrows i r r' hr hr')) hne
  claim _ hp := absurd hp.symm (cons_ne_self _ _)
  lease st _ _ ha := absurd ha (hno st)
  canceling i r hr hstatus := ⟨r, hstay i r hr hstatus, .inl hstatus⟩
  succeeded i r r' hr hr' hstatus := hrows i r r' hr hr' ▸ hstatus

theorem allowed_apply (hnext : ∀ t n, nextToken t = some n → t < n) (s : State) (a : Act) :
    Allowed a s (a.apply nextToken s) := by
  cases a with
  | statement st => exact allowed_statement hnext s st
  | create row =>
    have hid : ∀ n, (row.unclaimed n).id = n := fun _ => rfl
    have hget : ∀ i r, s.tasks.get i = some r → (s.tasks.insert row.unclaimed row.unclaimed_id).get i = some r := by
      intro i r hr
      have hne : s.tasks.next ≠ i := (SerialTable.lt_next_of_get hr).ne'
      exact (SerialTable.get_insert s.tasks hid i).trans (by rw [if_neg hne, hr])
    refine allowed_of_rows (by simp) (fun i r r' hr hr' => ?_) fun i r hr _ => hget i r hr
    exact some.inj (hr'.symm.trans (hget i r hr))
  | cleanup filters =>
    refine allowed_of_rows (by simp) (fun i r r' hr hr' => ?_) fun i r hr hstatus => ?_
    · exact some.inj ((get_cleanup hr').symm.trans hr)
    · exact get_cleanup_of_not_terminal hr (by simp [hstatus, BackgroundTaskStatus.isTerminal])
  | advance now =>
    exact allowed_of_rows (by simp) (fun i r r' hr hr' => some.inj (hr'.symm.trans hr)) fun i r hr _ => hr

/-- **Leases are fenced.** Whatever is sent, by whom and when: no two claims return the same lease, no
lease ends its attempt twice, and every step does what is allowed. A token changes at a claim and grows
there; a lease writes only while its token is the row's and the status is the right one; a row that is
being canceled is at most canceled; success is final. -/
theorem leases_fenced (hnext : ∀ t n, nextToken t = some n → t < n) {t : BackgroundTasks}
    {c : Config State Unit} (h : Reach (system nextToken) free (start t) c) :
    c.shared.claims.Nodup ∧ c.shared.ended.Nodup ∧
      ∀ i a c', (system nextToken).fire c i a = some c' → Allowed a c.shared c'.shared := by
  have hinv : Fenced c.shared := by
    refine h.induct (I := fun c => Fenced c.shared) ?_ fun {c c' i a} hc _ hf => ?_
    · exact ⟨by simp [start], by simp [start], by simp [start], by simp [start]⟩
    · obtain ⟨s', p', hstep, rfl⟩ := fire_eq_some hf
      cases hstep
      exact hc.apply hnext a
  refine ⟨hinv.claimsOnce, hinv.endedOnce, fun i a c' hf => ?_⟩
  obtain ⟨s', p', hstep, rfl⟩ := fire_eq_some hf
  cases hstep
  exact allowed_apply hnext c.shared a

end

/-- One task that waits. -/
def oneTask : BackgroundTasks where
  rows :=
    [{ id := 1, kind := .archiveExtract, status := .pending, creatorUserId := some 7, teamId := none
       displayName := "extract", payloadJson := "", maxAttempts := 3, nextRunAt := 0, expiresAt := 100
       createdAt := 0, updatedAt := 0 }]
  unique := by decide
  next := 2
  below := by decide

/-- A worker claims and stalls, another takes over; the first one reports success, and then the other. -/
theorem leases_fenced_takeover : ∃ c, Reach (system fun t => some (t + 1)) free (start oneTask) c ∧
      (c.shared.claims, c.shared.ended) = ([(1, 2), (1, 1)], [(1, 2)]) ∧
      c.shared.claims.Nodup ∧ c.shared.ended.Nodup := by
  let done (token : ℕ) : Act := .statement (.succeeded ⟨1, token, none, none, 1, 1, none, 90, 200⟩)
  have hrun : ((system fun t => some (t + 1)).run free (start oneTask)
      [(0, .statement (.claim 1 0 0 60)), (1, .statement (.claim 1 1 60 120)), (0, done 1), (1, done 2)]).map
        (fun c => (c.shared.claims, c.shared.ended)) = some ([(1, 2), (1, 1)], [(1, 2)]) := by
    decide
  obtain ⟨c, hc, hghosts⟩ := map_eq_some_iff.mp hrun
  have hreach := run_reach hc
  have hfenced := leases_fenced (by simp) hreach
  exact ⟨c, hreach, hghosts, hfenced.1, hfenced.2.1⟩

end AsterDrive.Tasks
