import AsterDrive.Lib.Census
import AsterDrive.Sharing.RollbackQueue

/-!
# Sharing/Downloads — direct downloads of a share and its download limit

`download_share_resource_with_disposition` (`share/content.rs`) reserves a download by raising the share's counter,
builds the response, and gives the reservation back if that fails. A streamed body carries a hook
(`AbortAwareStream`, `download/streaming.rs`): a body that is dropped before its end was polled gives its reservation
to the rollback queue.

The hook is disarmed by the poll that finds the end, not by the last byte. A client that has all the bytes and
closes the connection before that poll gets them for free (`limit_exceeded`).
-/

namespace AsterDrive.Sharing

open List Option

/-- A download request, with the share it is for. `streaming` is a body that has not been dropped, `dropped` one
that has; `hook` says whether the abort hook is armed, or was when the body was dropped. -/
inductive DownloadRequest
  | loaded (shareId : ℕ)
  | notModified
  | refused
  | reserved (shareId : ℕ)
  | buildFailed (shareId : ℕ)
  | rolledBack (shareId : ℕ)
  | notRolledBack (shareId : ℕ)
  | redirected (shareId : ℕ)
  | streaming (shareId contentLength yielded : ℕ) (hook : Bool)
  | dropped (shareId contentLength yielded : ℕ) (hook : Bool)

open DownloadRequest

/-- What `build_download_outcome_with_disposition_and_range` comes to. -/
inductive BuildOutcome
  | error
  | directRedirect
  | stream (contentLength : ℕ)

/-- What a poll of the body comes to: bytes, nothing (pending, or an error item), or the end. -/
inductive PollOutcome
  | bytes (n : ℕ)
  | nothing
  | ended

namespace DownloadRequest

variable (share : ℕ)

/-- Its increment was committed. -/
def isReservation : DownloadRequest → Bool
  | loaded _ | notModified | refused => false
  | reserved s | buildFailed s | rolledBack s | notRolledBack s | redirected s | streaming s _ _ _ | dropped s _ _ _ =>
    s = share

/-- It has rolled its increment back itself. -/
def isRolledBack : DownloadRequest → Bool
  | rolledBack s => s = share
  | _ => false

/-- It has given its reservation to the queue. -/
def isAborted : DownloadRequest → Bool
  | dropped s _ _ hook => s = share && hook
  | _ => false

/-- The client has the complete content: all bytes of the body, or the address it was sent to. -/
def isComplete : DownloadRequest → Bool
  | redirected s => s = share
  | streaming s contentLength yielded _ => s = share && decide (contentLength ≤ yielded)
  | dropped s contentLength yielded _ => s = share && decide (contentLength ≤ yielded)
  | _ => false

/-- It is about to roll its increment back. -/
def isRollingBack : DownloadRequest → Bool
  | buildFailed s => s = share
  | _ => false

/-- It may still come to the queue. -/
def needsQueue : DownloadRequest → Bool
  | loaded _ | reserved _ | streaming _ _ _ _ => true
  | _ => false

end DownloadRequest

/-- The queue with the shares, the requests in the order of their arrival, and the shares on which the floor of
`decrement_download_count_by` was taken. -/
structure Downloads where
  queue : RollbackQueue
  requests : List DownloadRequest := []
  floorsTaken : List ℕ := []

open Downloads

inductive DownloadAct
  | request (shareId : ℕ)
  | ifNoneMatch (i : ℕ)
  | reserve (i : ℕ) (fails : Bool)
  | build (i : ℕ) (outcome : BuildOutcome)
  | rollback (i : ℕ) (ok : Bool)
  | poll (i : ℕ) (outcome : PollOutcome)
  | drop (i : ℕ)
  | queue (a : QueueAct)

/-- The decrement that a step of the queue makes: the share and the count. -/
def lowering (q : RollbackQueue) : QueueAct → Option (ℕ × ℕ)
  | .runFallback job true => some (job.shareId, job.count)
  | .apply shareId true => some (shareId, q.worker.batch.count shareId)
  | _ => none

/-- The decrement finds less than it is to take away. -/
def takesFloor (t : Shares) (shareId count : ℕ) : Bool := ∃ s ∈ t.rows, s.id = shareId ∧ s.downloadCount < count

/-- `poll_next` of the `AbortAwareStream`. -/
def pollBody (shareId contentLength yielded : ℕ) (hook : Bool) : PollOutcome → DownloadRequest
  | .bytes n => .streaming shareId contentLength (yielded + n) hook
  | .nothing => .streaming shareId contentLength yielded hook
  | .ended => .streaming shareId contentLength yielded false

section

variable (capacity : ℕ) (x : Downloads)

/-- A request goes on. -/
def Downloads.becomes (i : ℕ) (r : DownloadRequest) : Downloads := { x with requests := x.requests.set i r }

/-- `reserve_share_download_count`. -/
def reserveShareDownloadCount (i shareId : ℕ) (fails : Bool) : Downloads :=
  if fails then x.becomes i .refused
  else if (incrementDownloadCount x.queue.shares shareId).1 then
    { x with
      queue := { x.queue with shares := (incrementDownloadCount x.queue.shares shareId).2 }
      requests := x.requests.set i (.reserved shareId) }
  else x.becomes i .refused

/-- `rollback_share_download_count`: a failing statement is logged. -/
def rollbackShareDownloadCount (i shareId : ℕ) (ok : Bool) : Downloads :=
  if ok then
    { x with
      queue := { x.queue with shares := (decrementDownloadCountBy x.queue.shares shareId 1).2 }
      requests := x.requests.set i (.rolledBack shareId)
      floorsTaken := if takesFloor x.queue.shares shareId 1 then shareId :: x.floorsTaken else x.floorsTaken }
  else x.becomes i (.notRolledBack shareId)

/-- The queue has made a step, with the decrement that came with it. -/
def Downloads.afterQueue (a : QueueAct) (queue : RollbackQueue) : Downloads :=
  { x with
    queue
    floorsTaken :=
      match lowering x.queue a with
      | some (shareId, count) =>
        if takesFloor x.queue.shares shareId count then shareId :: x.floorsTaken else x.floorsTaken
      | none => x.floorsTaken }

def stepDownloads : DownloadAct → Option Downloads
  | .request shareId => some { x with requests := x.requests ++ [.loaded shareId] }
  | .ifNoneMatch i =>
    match x.requests[i]? with
    | some (.loaded _) => some (x.becomes i .notModified)
    | _ => none
  | .reserve i fails =>
    match x.requests[i]? with
    | some (.loaded shareId) => some (reserveShareDownloadCount x i shareId fails)
    | _ => none
  | .build i outcome =>
    match x.requests[i]? with
    | some (.reserved shareId) =>
      some (x.becomes i (match outcome with
        | .error => .buildFailed shareId
        | .directRedirect => .redirected shareId
        | .stream contentLength => .streaming shareId contentLength 0 true))
    | _ => none
  | .rollback i ok =>
    match x.requests[i]? with
    | some (.buildFailed shareId) => some (rollbackShareDownloadCount x i shareId ok)
    | _ => none
  | .poll i outcome =>
    match x.requests[i]? with
    | some (.streaming shareId contentLength yielded hook) =>
      some (x.becomes i (pollBody shareId contentLength yielded hook outcome))
    | _ => none
  | .drop i =>
    match x.requests[i]? with
    | some (.streaming shareId contentLength yielded hook) =>
      if hook then
        (stepQueue capacity x.queue (.enqueue shareId)).map fun queue =>
          { x with queue, requests := x.requests.set i (.dropped shareId contentLength yielded hook) }
      else some (x.becomes i (.dropped shareId contentLength yielded hook))
    | _ => none
  -- only a dropped body enqueues, and the handles of the queue live as long as somebody may need one
  | .queue (.enqueue _) => none
  | .queue a =>
    if a = .dropSenders ∧ x.requests.any needsQueue then none
    else (stepQueue capacity x.queue a).map (x.afterQueue a)

end

def downloads (capacity : ℕ) : Lts Downloads DownloadAct := ⟨stepDownloads capacity⟩

/-- No request yet, and nothing to roll back. -/
def Downloads.start (shares : Shares) : Downloads := { queue := .start shares }

namespace Downloads

variable (x : Downloads) (share : ℕ)

def reservations : ℕ := x.requests.countP (isReservation share)
def rolledBack : ℕ := x.requests.countP (isRolledBack share)
def aborted : ℕ := x.requests.countP (isAborted share)
def rollingBack : ℕ := x.requests.countP (isRollingBack share)
def complete : ℕ := x.requests.countP (isComplete share)

/-- How often a reservation of the share was rolled back. -/
def rollbacks : ℕ := x.rolledBack share + x.queue.applied.count share

/-- The counter says what happened: reservations less rollbacks, within the limit, the floor never taken, and no more
rollbacks than requests that gave their reservation back. -/
structure CounterExact (limit : ℕ) : Prop where
  counter : ∃ row, x.queue.shares.get share = some row ∧ row.maxDownloads = limit ∧
    row.downloadCount + x.rollbacks share = x.reservations share ∧ row.downloadCount ≤ limit
  floor : share ∉ x.floorsTaken
  once : x.rollbacks share ≤ x.rolledBack share + x.aborted share

/-- A body that is dropped with its hook armed has not been yielded completely. -/
def HonestAbort (x : Downloads) : DownloadAct → Prop
  | .drop i =>
    match x.requests[i]? with
    | some (.streaming _ contentLength yielded true) => yielded < contentLength
    | _ => True
  | _ => True

instance (x : Downloads) (a : DownloadAct) : Decidable (x.HonestAbort a) := by
  unfold HonestAbort
  split
  · split <;> infer_instance
  · infer_instance

end Downloads

/-! ### What the steps of the queue do to the shares -/

section Lowering

variable {capacity : ℕ} {q q' : RollbackQueue} {a : QueueAct}

/-- What a decrement leaves of the shares. -/
def lowered (t : Shares) : Option (ℕ × ℕ) → Shares
  | some (shareId, count) => (decrementDownloadCountBy t shareId count).2
  | none => t

/-- What a decrement adds to the history. -/
def loweredBatch : Option (ℕ × ℕ) → Batch
  | some (shareId, count) => .replicate count shareId
  | none => 0

theorem tryReceive_keeps (q : RollbackQueue) (last : Bool) (batch : Batch) :
    (tryReceive q last batch).shares = q.shares ∧ (tryReceive q last batch).applied = q.applied ∧
      (tryReceive q last batch).enqueued = q.enqueued := by
  unfold tryReceive
  split
  all_goals exact ⟨rfl, rfl, rfl⟩

/-- A step of the queue makes at most one decrement, and only a new job adds to what was enqueued. -/
theorem stepQueue_lowering (hstep : stepQueue capacity q a = some q') :
    q'.shares = lowered q.shares (lowering q a) ∧ q'.applied = q.applied + loweredBatch (lowering q a) ∧
      q'.enqueued = (match a with | .enqueue shareId => {shareId} | _ => (0 : Batch)) + q.enqueued := by
  cases a with simp only [stepQueue] at hstep
  | enqueue shareId =>
    split_ifs at hstep
    cases hstep
    exact ⟨rfl, (add_zero _).symm, rfl⟩
  | trySend job =>
    split_ifs at hstep
    cases hstep
    unfold trySend
    split_ifs
    all_goals exact ⟨rfl, (add_zero _).symm, (zero_add _).symm⟩
  | runFallback job ok =>
    split_ifs at hstep
    cases hstep
    cases ok with
    | false => exact ⟨rfl, (add_zero _).symm, (zero_add _).symm⟩
    | true => exact ⟨rfl, rfl, (zero_add _).symm⟩
  | receive =>
    split_ifs at hstep
    unfold receive at hstep
    split at hstep
    · cases hstep
      exact ⟨rfl, (add_zero _).symm, (zero_add _).symm⟩
    · split_ifs at hstep
      cases hstep
      exact ⟨rfl, (add_zero _).symm, (zero_add _).symm⟩
  | tryReceive =>
    split at hstep
    next last batch hworker =>
      cases hstep
      obtain ⟨hshares, happlied, henqueued⟩ := tryReceive_keeps q last batch
      exact ⟨hshares, happlied.trans (add_zero _).symm, henqueued.trans (zero_add _).symm⟩
    next => cases hstep
  | mergeOverflow =>
    split at hstep
    next => cases hstep; exact ⟨rfl, (add_zero _).symm, (zero_add _).symm⟩
    next => cases hstep
  | apply shareId ok =>
    split at hstep
    next batch hworker =>
      split_ifs at hstep
      cases hstep
      cases ok with
      | false => exact ⟨rfl, (add_zero _).symm, (zero_add _).symm⟩
      | true =>
        have hlow : lowering q (.apply shareId true) = some (shareId, batch.count shareId) := by
          show some (shareId, q.worker.batch.count shareId) = _
          rw [hworker]
          rfl
        rw [hlow]
        exact ⟨rfl, rfl, (zero_add _).symm⟩
    next => cases hstep
  | cancel =>
    cases hstep
    exact ⟨rfl, (add_zero _).symm, (zero_add _).symm⟩
  | _ =>
    split_ifs at hstep
    cases hstep
    exact ⟨rfl, (add_zero _).symm, (zero_add _).symm⟩

theorem loweredCount_of_le {n k : ℕ} (h : k ≤ n) : loweredCount n k + k = n := by
  unfold loweredCount
  split_ifs <;> omega

theorem not_takesFloor {t : Shares} {shareId count : ℕ} {row : Share} (h : t.get shareId = some row)
    (hle : count ≤ row.downloadCount) : takesFloor t shareId count = false := by
  unfold takesFloor
  rw [decide_eq_false_iff_not]
  rintro ⟨s, hs, hid, hlt⟩
  obtain rfl : s = row := Table.eq_of_key hs (Table.mem_of_get h) (hid.trans (Table.key_of_get h).symm)
  omega

end Lowering

/-! ### The invariant -/

section Counter

variable {capacity limit share : ℕ} {x x' : Downloads} {a : DownloadAct}

/-- What holds of the share in every run. -/
structure Downloads.Sound (limit share : ℕ) (x : Downloads) : Prop where
  queue : x.queue.Accounted
  row : ∃ row, x.queue.shares.get share = some row ∧ row.maxDownloads = limit ∧
    row.downloadCount + x.rollbacks share = x.reservations share ∧ row.downloadCount ≤ limit
  enqueued : x.queue.enqueued.count share = x.aborted share
  floor : share ∉ x.floorsTaken

/-- A reservation is given back by the request itself, or to the queue, or it is about to be, or not at all. -/
theorem Downloads.givenBack_le (x : Downloads) (share : ℕ) :
    x.rolledBack share + x.aborted share + x.rollingBack share ≤ x.reservations share := by
  have hpair : x.requests.countP (fun r => r.isRolledBack share || r.isAborted share) + x.rollingBack share ≤
      x.reservations share := by
    refine Census.add_le_of_disjoint ?_ ?_ ?_
    all_goals
      intro r _
      cases r <;>
        simp +contextual [isRolledBack, isAborted, isReservation, isRollingBack]
  have hsum : x.rolledBack share + x.aborted share ≤
      x.requests.countP fun r => r.isRolledBack share || r.isAborted share := by
    refine Census.add_le_of_disjoint ?_ ?_ ?_
    all_goals
      intro r _
      cases r <;> simp [isRolledBack, isAborted]
  omega

theorem Downloads.Sound.applied_le (h : x.Sound limit share) : x.queue.applied.count share ≤ x.aborted share := by
  rw [← h.enqueued]
  exact Multiset.count_le_of_le share h.queue.once

/-- The balance of the share's books when the request at `i` moves on. -/
structure Moved (share i : ℕ) (r r' : DownloadRequest) (x x' : Downloads) : Prop where
  reservations : x'.reservations share + (if r.isReservation share then 1 else 0) =
    x.reservations share + if r'.isReservation share then 1 else 0
  rolledBack : x'.rolledBack share + (if r.isRolledBack share then 1 else 0) =
    x.rolledBack share + if r'.isRolledBack share then 1 else 0
  aborted : x'.aborted share + (if r.isAborted share then 1 else 0) =
    x.aborted share + if r'.isAborted share then 1 else 0

theorem moved_of_set {i : ℕ} {r r' : DownloadRequest} (hi : x.requests[i]? = some r)
    (hset : x'.requests = x.requests.set i r') : Moved share i r r' x x' where
  reservations := by
    unfold reservations
    rw [hset]
    exact Census.replaced _ hi
  rolledBack := by
    unfold Downloads.rolledBack
    rw [hset]
    exact Census.replaced _ hi
  aborted := by
    unfold aborted
    rw [hset]
    exact Census.replaced _ hi

theorem Downloads.Sound.becomes {i : ℕ} {r r' : DownloadRequest} (h : x.Sound limit share)
    (hi : x.requests[i]? = some r) (hres : r'.isReservation share = r.isReservation share)
    (hroll : r'.isRolledBack share = r.isRolledBack share) (habort : r'.isAborted share = r.isAborted share) :
    (x.becomes i r').Sound limit share := by
  have hmoved : Moved share i r r' x (x.becomes i r') := moved_of_set hi rfl
  have hreservations := hmoved.reservations
  have hrolledBack := hmoved.rolledBack
  have haborted := hmoved.aborted
  rw [hres] at hreservations
  rw [hroll] at hrolledBack
  rw [habort] at haborted
  obtain ⟨row, hrow, hmax, hcount, hle⟩ := h.row
  refine ⟨h.queue, ⟨row, hrow, hmax, ?_, hle⟩, ?_, h.floor⟩
  · have happlied : (x.becomes i r').queue.applied = x.queue.applied := rfl
    unfold rollbacks at hcount ⊢
    rw [happlied]
    omega
  · show x.queue.enqueued.count share = _
    rw [h.enqueued]
    omega

theorem Downloads.Sound.reserve {i shareId : ℕ} (fails : Bool) (hlimit : 0 < limit) (h : x.Sound limit share)
    (hi : x.requests[i]? = some (.loaded shareId)) : (reserveShareDownloadCount x i shareId fails).Sound limit share := by
  unfold reserveShareDownloadCount
  split_ifs with hfails hinc
  · exact h.becomes hi rfl rfl rfl
  · obtain ⟨row, hrow, hmax, hcount, hle⟩ := h.row
    obtain ⟨row', hrow', havailable⟩ := increment_fst.mp hinc
    let x' : Downloads := { x with
      queue := { x.queue with shares := (incrementDownloadCount x.queue.shares shareId).2 }
      requests := x.requests.set i (.reserved shareId) }
    have hmoved : Moved share i (.loaded shareId) (.reserved shareId) x x' := moved_of_set hi rfl
    have hreservations := hmoved.reservations
    have hrolledBack := hmoved.rolledBack
    have haborted := hmoved.aborted
    simp only [isReservation, isRolledBack, isAborted,
      Bool.false_eq_true, if_false, add_zero, decide_eq_true_eq] at hreservations hrolledBack haborted
    have hnew : (incrementDownloadCount x.queue.shares shareId).2.get share = some _ := get_increment hrow
    have hid : row.id = share := Table.key_of_get hrow
    refine ⟨⟨h.queue.jobs, h.queue.pending⟩, ⟨_, hnew, ?_, ?_, ?_⟩, h.enqueued.trans haborted.symm, h.floor⟩
    · split_ifs
      all_goals exact hmax
    · unfold rollbacks at hcount ⊢
      have happlied : x'.queue.applied = x.queue.applied := rfl
      show _ + (x'.rolledBack share + x'.queue.applied.count share) = x'.reservations share
      rw [happlied]
      by_cases hs : shareId = share
      · subst hs
        obtain rfl : row = row' := some.inj (hrow.symm.trans hrow')
        rw [if_pos rfl] at hreservations
        rw [if_pos ⟨hid, havailable⟩]
        dsimp only
        omega
      · rw [if_neg hs] at hreservations
        rw [if_neg fun hboth => hs (hboth.1.symm.trans hid)]
        omega
    · split_ifs with hboth
      · have hroom := hboth.2
        simp only [availableDownloads, decide_eq_true_eq] at hroom
        dsimp only
        omega
      · exact hle
  · exact h.becomes hi rfl rfl rfl

theorem lowered_row {t : Shares} {row : Share} {shareId count : ℕ} (hrow : t.get share = some row)
    (hle : shareId = share → count ≤ row.downloadCount) :
    ∃ row', (decrementDownloadCountBy t shareId count).2.get share = some row' ∧
      row'.maxDownloads = row.maxDownloads ∧ row'.downloadCount ≤ row.downloadCount ∧
      row'.downloadCount + (Multiset.replicate count shareId).count share = row.downloadCount := by
  have hnew : (decrementDownloadCountBy t shareId count).2.get share = some _ := get_decrement hrow
  have hid : row.id = share := Table.key_of_get hrow
  refine ⟨_, hnew, ?_, ?_, ?_⟩
  · split_ifs
    all_goals rfl
  · split_ifs with hs
    · have hlow := loweredCount_of_le (hle (hs.symm.trans hid))
      dsimp only
      omega
    · exact le_refl _
  · rw [Multiset.count_replicate]
    split_ifs with hs hs' hs'
    · exact loweredCount_of_le (hle hs')
    · exact absurd (hs.symm.trans hid) hs'
    · exact absurd (hid.trans hs'.symm) hs
    · rfl

theorem Downloads.Sound.lower {queue : RollbackQueue} {requests : List DownloadRequest} {shareId count : ℕ}
    (h : x.Sound limit share) (hacc : queue.Accounted)
    (hshares : queue.shares = (decrementDownloadCountBy x.queue.shares shareId count).2)
    (hallowed : shareId = share → count + x.rollbacks share ≤ x.reservations share)
    (hx' : x' = ⟨queue, requests,
      if takesFloor x.queue.shares shareId count then shareId :: x.floorsTaken else x.floorsTaken⟩)
    (hreservations : x'.reservations share = x.reservations share)
    (hrollbacks : x'.rollbacks share = x.rollbacks share + (Multiset.replicate count shareId).count share)
    (henqueued : queue.enqueued.count share = x'.aborted share) : x'.Sound limit share := by
  obtain ⟨row, hrow, hmax, hcount, hle⟩ := h.row
  have hallowed' : shareId = share → count ≤ row.downloadCount := fun hs => by
    omega
  obtain ⟨row', hrow', hmax', hle', hcount'⟩ := lowered_row hrow hallowed'
  have hqueue : x'.queue = queue := by rw [hx']
  refine ⟨by rw [hqueue]; exact hacc, ⟨row', ?_, hmax'.trans hmax, ?_, hle'.trans hle⟩, ?_, ?_⟩
  · rw [hqueue, hshares]
    exact hrow'
  · rw [hreservations, hrollbacks]
    omega
  · rw [hqueue]
    exact henqueued
  · have hfloors : x'.floorsTaken =
        if takesFloor x.queue.shares shareId count then shareId :: x.floorsTaken else x.floorsTaken := by rw [hx']
    rw [hfloors]
    split_ifs with hfloor
    · intro hmem
      rcases mem_cons.mp hmem with rfl | hmem
      · rw [not_takesFloor hrow (hallowed' rfl)] at hfloor
        cases hfloor
      · exact h.floor hmem
    · exact h.floor

theorem Downloads.Sound.rollback {i shareId : ℕ} (ok : Bool) (h : x.Sound limit share)
    (hi : x.requests[i]? = some (.buildFailed shareId)) :
    (rollbackShareDownloadCount x i shareId ok).Sound limit share := by
  cases ok with
  | false => exact h.becomes hi rfl rfl rfl
  | true =>
    have hmoved : Moved share i (.buildFailed shareId) (.rolledBack shareId) x
        (rollbackShareDownloadCount x i shareId true) := moved_of_set hi rfl
    have hreservations := hmoved.reservations
    have hrolledBack := hmoved.rolledBack
    have haborted := hmoved.aborted
    simp only [isReservation, isRolledBack, isAborted,
      Bool.false_eq_true, if_false, add_zero, decide_eq_true_eq] at hreservations hrolledBack haborted
    have hacc : (rollbackShareDownloadCount x i shareId true).queue.Accounted := ⟨h.queue.jobs, h.queue.pending⟩
    have hshares : (rollbackShareDownloadCount x i shareId true).queue.shares =
        (decrementDownloadCountBy x.queue.shares shareId 1).2 := rfl
    refine h.lower hacc hshares ?_ rfl ?_ ?_ ?_
    · -- this request holds a reservation that nobody has given back
      rintro rfl
      have hsome : 0 < x.rollingBack shareId := by
        refine countP_pos_iff.mpr ⟨_, mem_of_getElem? hi, ?_⟩
        simp [isRollingBack]
      have hgiven := x.givenBack_le shareId
      have happlied := h.applied_le
      unfold rollbacks
      omega
    · omega
    · have happlied : (rollbackShareDownloadCount x i shareId true).queue.applied = x.queue.applied := rfl
      unfold rollbacks
      rw [happlied, Multiset.count_replicate, hrolledBack]
      omega
    · exact h.enqueued.trans haborted.symm

theorem Downloads.Sound.abort {i shareId contentLength yielded : ℕ} {queue : RollbackQueue} (h : x.Sound limit share)
    (hi : x.requests[i]? = some (.streaming shareId contentLength yielded true))
    (hstep : stepQueue capacity x.queue (.enqueue shareId) = some queue)
    (hx' : x' = { x with queue, requests := x.requests.set i (.dropped shareId contentLength yielded true) }) :
    x'.Sound limit share := by
  subst hx'
  obtain ⟨hshares, happlied, henqueued⟩ := stepQueue_lowering hstep
  have hmoved : Moved share i (.streaming shareId contentLength yielded true) (.dropped shareId contentLength yielded true)
      x { x with queue, requests := x.requests.set i (.dropped shareId contentLength yielded true) } :=
    moved_of_set hi rfl
  have hreservations := hmoved.reservations
  have hrolledBack := hmoved.rolledBack
  have haborted := hmoved.aborted
  simp only [isReservation, isRolledBack, isAborted,
    Bool.false_eq_true, if_false, add_zero, decide_eq_true_eq, Bool.and_true, Nat.add_right_cancel_iff]
    at hreservations hrolledBack haborted
  obtain ⟨row, hrow, hmax, hcount, hle⟩ := h.row
  refine ⟨accounted_step h.queue hstep, ⟨row, ?_, hmax, ?_, hle⟩, ?_, h.floor⟩
  · show queue.shares.get share = some row
    rw [hshares]
    exact hrow
  · unfold rollbacks at hcount ⊢
    show _ + (_ + queue.applied.count share) = _
    rw [happlied, hrolledBack, hreservations]
    simpa [lowering, loweredBatch] using hcount
  · show queue.enqueued.count share = _
    rw [henqueued, Multiset.count_add, h.enqueued, haborted, Multiset.count_singleton]
    by_cases hs : share = shareId
    · rw [if_pos hs, if_pos hs.symm]
      omega
    · rw [if_neg hs, if_neg (Ne.symm hs)]
      omega

theorem Downloads.Sound.queueStep {b : QueueAct} {queue : RollbackQueue} (h : x.Sound limit share)
    (hb : ∀ shareId, b ≠ .enqueue shareId) (hstep : stepQueue capacity x.queue b = some queue)
    (hx' : x' = x.afterQueue b queue) : x'.Sound limit share := by
  unfold afterQueue at hx'
  obtain ⟨hshares, happlied, henqueued⟩ := stepQueue_lowering hstep
  have hacc := accounted_step h.queue hstep
  have henq : queue.enqueued = x.queue.enqueued := by
    cases b with
    | enqueue shareId => exact absurd rfl (hb shareId)
    | _ => exact henqueued.trans (zero_add _)
  have hsame : x'.requests = x.requests := by rw [hx']
  have hreservations : x'.reservations share = x.reservations share := congrArg _ hsame
  have hrolledBack : x'.rolledBack share = x.rolledBack share := congrArg _ hsame
  have haborted : x'.aborted share = x.aborted share := congrArg _ hsame
  have henqueued' : queue.enqueued.count share = x'.aborted share := by
    rw [henq, haborted]
    exact h.enqueued
  have hqueue : x'.queue = queue := by rw [hx']
  cases hlow : lowering x.queue b with
  | none =>
    rw [hlow] at hx' hshares happlied
    obtain ⟨row, hrow, hmax, hcount, hle⟩ := h.row
    refine ⟨by rw [hqueue]; exact hacc, ⟨row, ?_, hmax, ?_, hle⟩, by rw [hqueue]; exact henqueued', ?_⟩
    · rw [hqueue, hshares]
      exact hrow
    · unfold rollbacks at hcount ⊢
      rw [hqueue, happlied, hrolledBack, hreservations]
      simpa [loweredBatch] using hcount
    · rw [hx']
      exact h.floor
  | some lower =>
    obtain ⟨shareId, count⟩ := lower
    rw [hlow] at hx' hshares happlied
    have hcount : x'.rollbacks share = x.rollbacks share + (Multiset.replicate count shareId).count share := by
      unfold rollbacks
      rw [hqueue, happlied, hrolledBack, Multiset.count_add, ← add_assoc]
      rfl
    refine h.lower hacc hshares ?_ hx' hreservations hcount henqueued'
    -- what is applied was enqueued, and every enqueued rollback is an aborted request's
    rintro rfl
    have hle : queue.applied.count shareId ≤ x.aborted shareId := by
      rw [← h.enqueued, ← henq]
      exact Multiset.count_le_of_le shareId hacc.once
    rw [happlied, Multiset.count_add] at hle
    have hself : (loweredBatch (some (shareId, count))).count shareId = count := Multiset.count_replicate_self ..
    have hgiven := x.givenBack_le shareId
    unfold rollbacks
    omega

theorem step_queue {b : QueueAct} (hstep : stepDownloads capacity x (.queue b) = some x') :
    (∀ shareId, b ≠ .enqueue shareId) ∧
      ∃ queue, stepQueue capacity x.queue b = some queue ∧ x' = x.afterQueue b queue := by
  have hb : ∀ shareId, b ≠ .enqueue shareId := by
    rintro shareId rfl
    cases hstep
  refine ⟨hb, ?_⟩
  have hmap : (if b = .dropSenders ∧ x.requests.any needsQueue then none
      else (stepQueue capacity x.queue b).map (x.afterQueue b)) = some x' := by
    cases b with
    | enqueue shareId => exact absurd rfl (hb shareId)
    | _ => exact hstep
  split_ifs at hmap
  obtain ⟨queue, hqueue, hx'⟩ := map_eq_some_iff.mp hmap
  exact ⟨queue, hqueue, hx'.symm⟩

theorem Downloads.Sound.step (hlimit : 0 < limit) (h : x.Sound limit share)
    (hstep : stepDownloads capacity x a = some x') : x'.Sound limit share := by
  cases a with simp only [stepDownloads] at hstep
  | request shareId =>
    cases hstep
    have hsame : ∀ p : DownloadRequest → Bool, p (.loaded shareId) = false →
        (x.requests ++ [loaded shareId]).countP p = x.requests.countP p := by
      intro p hp
      rw [Census.joined, hp]
      rfl
    obtain ⟨row, hrow, hmax, hcount, hle⟩ := h.row
    refine ⟨h.queue, ⟨row, hrow, hmax, ?_, hle⟩, ?_, h.floor⟩
    · unfold rollbacks rolledBack reservations at hcount ⊢
      rw [hsame (isRolledBack share) rfl, hsame (isReservation share) rfl]
      exact hcount
    · refine h.enqueued.trans ?_
      exact (hsame (isAborted share) rfl).symm
  | ifNoneMatch i =>
    split at hstep
    next shareId hi =>
      cases hstep
      exact h.becomes hi rfl rfl rfl
    next => cases hstep
  | reserve i fails =>
    split at hstep
    next shareId hi =>
      cases hstep
      exact h.reserve fails hlimit hi
    next => cases hstep
  | build i outcome =>
    split at hstep
    next shareId hi =>
      cases hstep
      cases outcome with
      | error | directRedirect | stream contentLength => exact h.becomes hi rfl rfl rfl
    next => cases hstep
  | rollback i ok =>
    split at hstep
    next shareId hi =>
      cases hstep
      exact h.rollback ok hi
    next => cases hstep
  | poll i outcome =>
    split at hstep
    next shareId contentLength yielded hook hi =>
      cases hstep
      cases outcome with
      | bytes n | nothing | ended => exact h.becomes hi rfl rfl rfl
    next => cases hstep
  | drop i =>
    split at hstep
    next shareId contentLength yielded hook hi =>
      cases hook with
      | true =>
        obtain ⟨queue, hqueue, hx'⟩ := map_eq_some_iff.mp hstep
        exact h.abort hi hqueue hx'.symm
      | false =>
        cases hstep
        refine h.becomes hi rfl rfl ?_
        simp [isAborted]
    next => cases hstep
  | queue b =>
    obtain ⟨hb, queue, hqueue, hx'⟩ := step_queue hstep
    exact h.queueStep hb hqueue hx'

theorem Downloads.Sound.exact (h : x.Sound limit share) : x.CounterExact share limit where
  counter := h.row
  floor := h.floor
  once := Nat.add_le_add_left h.applied_le _

theorem sound_run {G : Downloads → DownloadAct → Prop} {shares : Shares} {row : Share} (hlimit : 0 < limit)
    (hrow : shares.get share = some row) (hmax : row.maxDownloads = limit) (hcount : row.downloadCount = 0)
    (h : Lts.Reach (downloads capacity) G (.start shares) x) : x.Sound limit share := by
  have hstart : (start shares).Sound limit share :=
    ⟨RollbackQueue.accounted_start shares, ⟨row, hrow, hmax, by rw [hcount]; rfl, by omega⟩, rfl, not_mem_nil⟩
  exact h.induct (I := Downloads.Sound limit share) hstart fun hx _ hstep => hx.step hlimit hstep

end Counter

/-! ### Complete bodies -/

section Complete

variable {capacity limit share : ℕ} {x x' : Downloads} {a : DownloadAct}

/-- No request has both the complete content and its reservation back. -/
def Downloads.Honest (share : ℕ) (x : Downloads) : Prop :=
  ∀ r ∈ x.requests, r.isComplete share → r.isAborted share = false

theorem Downloads.Honest.becomes {i : ℕ} {r : DownloadRequest} (h : x.Honest share)
    (hr : r.isComplete share → r.isAborted share = false) (hset : x'.requests = x.requests.set i r) :
    x'.Honest share := by
  intro r' hr' hcomplete
  rw [hset] at hr'
  rcases mem_or_eq_of_mem_set hr' with hold | rfl
  · exact h r' hold hcomplete
  · exact hr hcomplete

theorem Downloads.Honest.step (h : x.Honest share) (hguard : x.HonestAbort a)
    (hstep : stepDownloads capacity x a = some x') : x'.Honest share := by
  cases a with simp only [stepDownloads] at hstep
  | request shareId =>
    cases hstep
    intro r hr hcomplete
    rcases mem_append.mp hr with hold | hnew
    · exact h r hold hcomplete
    · obtain rfl := mem_singleton.mp hnew
      rfl
  | ifNoneMatch i =>
    split at hstep
    next => cases hstep; exact h.becomes (fun _ => rfl) rfl
    next => cases hstep
  | reserve i fails =>
    split at hstep
    next =>
      cases hstep
      unfold reserveShareDownloadCount
      split_ifs
      all_goals exact h.becomes (fun _ => rfl) rfl
    next => cases hstep
  | build i outcome | poll i outcome =>
    split at hstep
    next =>
      cases hstep
      refine h.becomes (fun _ => ?_) rfl
      cases outcome <;> rfl
    next => cases hstep
  | rollback i ok =>
    split at hstep
    next =>
      cases hstep
      cases ok with
      | false | true => exact h.becomes (fun _ => rfl) rfl
    next => cases hstep
  | drop i =>
    split at hstep
    next shareId contentLength yielded hook hi =>
      cases hook with
      | true =>
        obtain ⟨queue, _, rfl⟩ := map_eq_some_iff.mp hstep
        refine h.becomes (fun hcomplete => ?_) rfl
        -- the guard: bytes of the body are missing
        have hmissing : yielded < contentLength := by simpa only [Downloads.HonestAbort, hi] using hguard
        simp only [isComplete, Bool.and_eq_true, decide_eq_true_eq] at hcomplete
        omega
      | false =>
        cases hstep
        refine h.becomes (fun _ => ?_) rfl
        simp [isAborted]
    next => cases hstep
  | queue b =>
    obtain ⟨-, queue, -, rfl⟩ := step_queue hstep
    exact h

theorem Downloads.Sound.complete_le (h : x.Sound limit share) (hhonest : x.Honest share) :
    x.complete share ≤ limit := by
  have hkinds : x.complete share + x.requests.countP (fun r => r.isRolledBack share || r.isAborted share) ≤
      x.reservations share := by
    refine Census.add_le_of_disjoint ?_ ?_ ?_
    · intro r _
      cases r <;> simp +contextual [isComplete, isReservation]
    · intro r _
      cases r <;>
        simp +contextual [isRolledBack, isAborted, isReservation]
    · intro r hr hcomplete
      have hkept := hhonest r hr hcomplete
      cases r <;> simp_all [isComplete, isRolledBack]
  have hgiven : x.rolledBack share + x.aborted share ≤
      x.requests.countP fun r => r.isRolledBack share || r.isAborted share := by
    refine Census.add_le_of_disjoint ?_ ?_ ?_
    all_goals
      intro r _
      cases r <;> simp [isRolledBack, isAborted]
  obtain ⟨row, -, -, hcount, hle⟩ := h.row
  have happlied := h.applied_le
  unfold rollbacks at hcount
  omega

theorem honest_run {shares : Shares} (h : Lts.Reach (downloads capacity) Downloads.HonestAbort (.start shares) x) :
    x.Honest share := by
  have hstart : (start shares).Honest share := fun _ hr => absurd hr not_mem_nil
  exact h.induct (I := Downloads.Honest share) hstart fun hx hg hstep => hx.step hg hstep

end Complete

/-- **The download limit.** In every run the counter is exact and within the limit; no more requests than the limit
get the complete content in the runs in which no complete body is taken for an aborted one. -/
theorem download_limit (capacity limit share : ℕ) (shares : Shares) (row : Share) (hlimit : 0 < limit)
    (hrow : shares.get share = some row) (hmax : row.maxDownloads = limit) (hcount : row.downloadCount = 0) :
    (∀ x, Lts.Reach (downloads capacity) Lts.free (.start shares) x → x.CounterExact share limit) ∧
      ∀ x, Lts.Reach (downloads capacity) Downloads.HonestAbort (.start shares) x →
        x.CounterExact share limit ∧ x.complete share ≤ limit := by
  refine ⟨fun x h => (sound_run hlimit hrow hmax hcount h).exact, fun x h => ?_⟩
  have hsound := sound_run hlimit hrow hmax hcount h
  exact ⟨hsound.exact, hsound.complete_le (honest_run h)⟩

/-- One share with a limit of one download. -/
def sampleShares : Shares :=
  (SerialTable.empty : Shares).insert
    (fun id => { id, userId := 1, teamId := none, fileId := some 5, folderId := none, expiresAt := none
                 maxDownloads := 1, downloadCount := 0 }) fun _ => rfl

def sampleShare : Share :=
  { id := 1, userId := 1, teamId := none, fileId := some 5, folderId := none, expiresAt := none, maxDownloads := 1
    downloadCount := 0 }

theorem download_limit_served :
    ∃ x, Lts.Reach (downloads 1) Downloads.HonestAbort (.start sampleShares) x ∧ x.complete 1 = 1 ∧
      x.CounterExact 1 1 ∧ x.complete 1 ≤ 1 := by
  have hrun : ((downloads 1).run Downloads.HonestAbort
      [.request 1, .reserve 0 false, .build 0 (.stream 3), .poll 0 (.bytes 2), .poll 0 (.bytes 1), .poll 0 .ended,
        .drop 0, .request 1, .reserve 1 false] (.start sampleShares)).map (fun x => x.complete 1) = some 1 := by
    decide
  obtain ⟨x, hrun, hx⟩ := map_eq_some_iff.mp hrun
  have hreach := Lts.reach_of_run hrun
  exact ⟨x, hreach, hx, (download_limit 1 1 1 sampleShares sampleShare (by decide) (by decide) rfl rfl).2 x hreach⟩

/-- The client has all the bytes and closes the connection; the rollback makes room for the next one. -/
theorem limit_exceeded :
    ∃ x, Lts.Reach (downloads 1) Lts.free (.start sampleShares) x ∧ sampleShares.get 1 = some sampleShare ∧
      sampleShare.maxDownloads = 1 ∧ x.complete 1 = 2 := by
  have hrun : ((downloads 1).run Lts.free
      [.request 1, .reserve 0 false, .build 0 (.stream 3), .poll 0 (.bytes 3), .drop 0, .queue .takeOverflow,
        .queue (.trySend ⟨1, 1⟩), .queue .receive, .queue .tryReceive, .queue .mergeOverflow, .queue (.apply 1 true),
        .request 1, .reserve 1 false, .build 1 (.stream 3), .poll 1 (.bytes 3), .poll 1 .ended]
      (.start sampleShares)).map (fun x => x.complete 1) = some 2 := by
    decide
  obtain ⟨x, hrun, hx⟩ := map_eq_some_iff.mp hrun
  exact ⟨x, Lts.reach_of_run hrun, by decide, rfl, hx⟩

end AsterDrive.Sharing
