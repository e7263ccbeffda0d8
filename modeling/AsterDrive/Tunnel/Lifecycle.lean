import AsterDrive.Lib.Lts
import Mathlib.Algebra.Group.Nat.Defs

/-!
# Tunnel/Lifecycle — when a remote node counts as connected

`record_handshake`, `record_stream_disconnect` and `expire_lifecycle_if_stale` of
`tunnel/server/registry/mod.rs`, for one node. A lane that connects registers and records its handshake; the drop
of its guard records the disconnect. A poll records a handshake too, without a lane. Each of the two leaves a
timer that expires the state if nothing was observed since. The pongs and frames of a lane only move
`last_handshake_at`, which the timers do not look at, so that a lane that stays connected is taken for lost when
its timer fires (`expiry_disconnects_connected_lane`).

Times are in milliseconds.
-/

namespace AsterDrive.Tunnel

open List Option

def remoteTunnelOnlineTtl : ℕ := 75000

/-- `u64::MAX`, and `usize::MAX`. -/
def u64Max : ℕ := 2 ^ 64 - 1

/-- `saturating_add(1)` -/
def saturatingSucc (n : ℕ) : ℕ := min (n + 1) u64Max

theorem saturatingSucc_of_lt {n : ℕ} (h : n < u64Max) : saturatingSucc n = n + 1 := Nat.min_eq_left (by omega)

inductive TunnelDisconnectReason
  | gracefulShutdown | peerClose | eof | connectionReset | protocolReadError | protocolDecodeError
  | heartbeatTimeout | heartbeatSendFailed | ownerFenced | ownerRenewalFailed | closeHandshakeFailed

def TunnelDisconnectReason.priority : TunnelDisconnectReason → ℕ
  | gracefulShutdown | peerClose => 0
  | eof | connectionReset | protocolReadError | protocolDecodeError | heartbeatSendFailed | ownerFenced
  | ownerRenewalFailed | closeHandshakeFailed => 1
  | heartbeatTimeout => 2

structure ConnectionLifecycleState where
  online : Bool := false
  generation : ℕ := 0
  outageGeneration : ℕ := 0
  activeLanes : ℕ := 0
  laneCount : ℕ := 0
  firstLaneId : Option ℕ := none
  pendingDisconnectReason : Option TunnelDisconnectReason := none
  lastDisconnectReason : Option TunnelDisconnectReason := none
  observationRevision : ℕ := 0

namespace ConnectionLifecycleState

/-- The lane that a handshake comes with. -/
def addLane (state : ConnectionLifecycleState) : Option ℕ → ConnectionLifecycleState
  | none => state
  | some laneId => { state with
      activeLanes := saturatingSucc state.activeLanes
      laneCount := max state.laneCount (saturatingSucc state.activeLanes)
      firstLaneId := state.firstLaneId.or (some laneId) }

def recordHandshake (state : ConnectionLifecycleState) (laneId : Option ℕ) : ConnectionLifecycleState :=
  let observed := { state with
    observationRevision := saturatingSucc state.observationRevision
    pendingDisconnectReason := none }.addLane laneId
  if observed.online then observed
  else { observed with online := true, generation := saturatingSucc observed.generation }

def recordStreamDisconnect (state : ConnectionLifecycleState) (reason : TunnelDisconnectReason) :
    ConnectionLifecycleState :=
  if !state.online then state
  else
    let strongest := (state.pendingDisconnectReason.filter fun current => reason.priority ≤ current.priority).getD reason
    let left := { state with
      activeLanes := state.activeLanes - 1
      pendingDisconnectReason := some strongest }
    if left.activeLanes = 0 ∧ reason.priority = 0 then
      { left with
        observationRevision := saturatingSucc left.observationRevision
        online := false
        outageGeneration := saturatingSucc left.outageGeneration
        pendingDisconnectReason := none
        lastDisconnectReason := some strongest
        firstLaneId := none
        laneCount := 0 }
    else left

def expireIfStale (state : ConnectionLifecycleState) (observationRevision : ℕ) : ConnectionLifecycleState :=
  if !state.online ∨ state.observationRevision ≠ observationRevision then state
  else { state with
    online := false
    outageGeneration := saturatingSucc state.outageGeneration
    pendingDisconnectReason := none
    lastDisconnectReason := some (state.pendingDisconnectReason.getD .eof)
    activeLanes := 0
    firstLaneId := none
    laneCount := 0 }

end ConnectionLifecycleState

/-- A task of `schedule_lifecycle_expiry`. -/
structure ExpiryTimer where
  due : ℕ
  observationRevision : ℕ

/-- The lifecycle of a node with its lanes, the clock and the timers. -/
structure Lifecycle where
  state : ConnectionLifecycleState := {}
  /-- the lane guards that are alive -/
  lanes : ℕ := 0
  lastPoll : Option ℕ := none
  lastHandshakeAt : Option ℕ := none
  now : ℕ := 0
  timers : List ExpiryTimer := []

inductive LifecycleAct
  /-- a lane registers and records its handshake -/
  | connect (laneId : ℕ)
  /-- a lane guard is dropped -/
  | disconnect (reason : TunnelDisconnectReason)
  | poll
  /-- a frame, a ping or a pong on a lane -/
  | hear
  /-- the timer with this index fires -/
  | expire (i : ℕ)
  | tick (elapsed : ℕ)

namespace Lifecycle

/-- `record_handshake` with its timer. -/
def recordHandshake (s : Lifecycle) (laneId : Option ℕ) : Lifecycle :=
  { s with
    state := s.state.recordHandshake laneId
    lastHandshakeAt := some s.now
    timers := s.timers ++ [⟨s.now + remoteTunnelOnlineTtl, (s.state.recordHandshake laneId).observationRevision⟩] }

def step (s : Lifecycle) : LifecycleAct → Option Lifecycle
  | .connect laneId => some { s.recordHandshake (some laneId) with lanes := s.lanes + 1 }
  | .disconnect reason =>
    if s.lanes = 0 then none
    else some { s with state := s.state.recordStreamDisconnect reason, lanes := s.lanes - 1 }
  | .poll => some { s.recordHandshake none with lastPoll := some s.now }
  | .hear => if s.lanes = 0 then none else some { s with lastHandshakeAt := some s.now }
  | .expire i =>
    match s.timers[i]? with
    | none => none
    | some timer =>
      if timer.due ≤ s.now then
        some { s with state := s.state.expireIfStale timer.observationRevision, timers := s.timers.eraseIdx i }
      else none
  | .tick elapsed => some { s with now := s.now + elapsed }

end Lifecycle

def lifecycle : Lts Lifecycle LifecycleAct where
  step := Lifecycle.step

namespace Lifecycle

/-- No poll arrived within the online window. -/
def Quiet (s : Lifecycle) : Prop := ∀ t ∈ s.lastPoll, t + remoteTunnelOnlineTtl ≤ s.now

instance (s : Lifecycle) : Decidable s.Quiet :=
  inferInstanceAs (Decidable (∀ t ∈ s.lastPoll, t + remoteTunnelOnlineTtl ≤ s.now))

/-- The counters are below their maximum. -/
def Counts (s : Lifecycle) : Prop :=
  s.state.observationRevision < u64Max ∧ s.state.generation < u64Max ∧ s.state.outageGeneration < u64Max ∧
    s.state.activeLanes < u64Max

instance (s : Lifecycle) : Decidable s.Counts := inferInstanceAs (Decidable (_ ∧ _))

/-- A timer that finds its own revision finds no lane, a graceful last lane leaves when no poll is recent, and no
counter is at its maximum. -/
def Unhurried (s : Lifecycle) : LifecycleAct → Prop
  | .connect _ | .poll => s.Counts
  | .disconnect reason => s.Counts ∧ (s.lanes = 1 → reason.priority = 0 → s.Quiet)
  | .expire i => s.Counts ∧
    ∀ timer ∈ s.timers[i]?, timer.observationRevision = s.state.observationRevision → s.state.online = true → s.lanes = 0
  | .hear | .tick _ => True

instance (s : Lifecycle) : DecidablePred s.Unhurried
  | .connect _ | .poll => inferInstanceAs (Decidable s.Counts)
  | .disconnect reason => inferInstanceAs (Decidable (s.Counts ∧ (s.lanes = 1 → reason.priority = 0 → s.Quiet)))
  | .expire i => inferInstanceAs (Decidable (s.Counts ∧ ∀ timer ∈ s.timers[i]?,
      timer.observationRevision = s.state.observationRevision → s.state.online = true → s.lanes = 0))
  | .hear | .tick _ => .isTrue trivial

/-- The lifecycle state says what is connected. -/
structure Agrees (s : Lifecycle) : Prop where
  lanes : s.state.activeLanes = s.lanes
  outage : s.state.online = false → s.lanes = 0 ∧ s.Quiet
  generations : s.state.generation ≠ s.state.outageGeneration ↔ s.state.online = true

/-- A step that takes the node online or offline counts that generation up by one, and no other step counts. -/
def Bumps (s s' : Lifecycle) : Prop :=
  s'.state.generation = s.state.generation + (if !s.state.online && s'.state.online then 1 else 0) ∧
    s'.state.outageGeneration = s.state.outageGeneration + (if s.state.online && !s'.state.online then 1 else 0)

end Lifecycle

/-! ### What each operation does to the state -/

namespace ConnectionLifecycleState

variable {state : ConnectionLifecycleState}

theorem recordHandshake_spec (laneId : Option ℕ) (hrevision : state.observationRevision < u64Max)
    (hgeneration : state.generation < u64Max) (hlanes : state.activeLanes < u64Max) :
    (state.recordHandshake laneId).online = true ∧
      (state.recordHandshake laneId).observationRevision = state.observationRevision + 1 ∧
      (state.recordHandshake laneId).activeLanes = state.activeLanes + (if laneId.isSome then 1 else 0) ∧
      (state.recordHandshake laneId).generation = state.generation + (if state.online then 0 else 1) ∧
      (state.recordHandshake laneId).outageGeneration = state.outageGeneration := by
  have hr := saturatingSucc_of_lt hrevision
  have hg := saturatingSucc_of_lt hgeneration
  have hl := saturatingSucc_of_lt hlanes
  cases honline : state.online <;> cases laneId <;> simp [recordHandshake, addLane, honline, hr, hg, hl]

/-- The last lane that leaves gracefully takes the node offline, any other lane leaves it online. -/
theorem recordStreamDisconnect_spec (reason : TunnelDisconnectReason) (honline : state.online = true)
    (hrevision : state.observationRevision < u64Max) (houtage : state.outageGeneration < u64Max) :
    (state.recordStreamDisconnect reason).activeLanes = state.activeLanes - 1 ∧
      (state.recordStreamDisconnect reason).generation = state.generation ∧
      ((state.activeLanes - 1 = 0 ∧ reason.priority = 0 ∧ (state.recordStreamDisconnect reason).online = false ∧
          (state.recordStreamDisconnect reason).observationRevision = state.observationRevision + 1 ∧
          (state.recordStreamDisconnect reason).outageGeneration = state.outageGeneration + 1) ∨
        (state.recordStreamDisconnect reason).online = true ∧
          (state.recordStreamDisconnect reason).observationRevision = state.observationRevision ∧
          (state.recordStreamDisconnect reason).outageGeneration = state.outageGeneration) := by
  have hr := saturatingSucc_of_lt hrevision
  have ho := saturatingSucc_of_lt houtage
  by_cases hlast : state.activeLanes - 1 = 0 ∧ reason.priority = 0
  · simp [recordStreamDisconnect, honline, hlast, hr, ho]
  · have hstay : state.recordStreamDisconnect reason = { state with
        activeLanes := state.activeLanes - 1
        pendingDisconnectReason := some ((state.pendingDisconnectReason.filter fun current =>
          reason.priority ≤ current.priority).getD reason) } := by
      rw [recordStreamDisconnect, if_neg (by simp [honline])]
      exact if_neg hlast
    rw [hstay]
    exact ⟨rfl, rfl, .inr ⟨honline, rfl, rfl⟩⟩

end ConnectionLifecycleState

namespace Lifecycle

variable {s s' : Lifecycle}

/-! ### What a run keeps -/

structure Steady (s : Lifecycle) : Prop where
  lanes : s.state.activeLanes = s.lanes
  outage : s.state.online = false → s.lanes = 0 ∧ s.Quiet
  generation : s.state.generation = s.state.outageGeneration + (if s.state.online then 1 else 0)
  /-- a timer comes from an observation, and only the last one counts -/
  observed : ∀ timer ∈ s.timers, timer.observationRevision ≤ s.state.observationRevision
  window : ∀ timer ∈ s.timers, timer.observationRevision = s.state.observationRevision →
    ∀ t ∈ s.lastPoll, t + remoteTunnelOnlineTtl ≤ timer.due
  past : ∀ t ∈ s.lastPoll, t ≤ s.now

theorem Steady.agrees (hs : s.Steady) : s.Agrees := by
  refine ⟨hs.lanes, hs.outage, ?_⟩
  have hgeneration := hs.generation
  cases honline : s.state.online <;> simp [honline] at hgeneration ⊢ <;> omega

theorem Steady.recordHandshake {laneId : Option ℕ} {lanes : ℕ} {lastPoll : Option ℕ} (hs : s.Steady) (hc : s.Counts)
    (hlanes : lanes = s.lanes + (if laneId.isSome then 1 else 0)) (hpoll : ∀ t ∈ lastPoll, t ≤ s.now) :
    Steady { s.recordHandshake laneId with lanes, lastPoll } ∧
      Bumps s { s.recordHandshake laneId with lanes, lastPoll } := by
  obtain ⟨hrevision, hgeneration, -, hactive⟩ := hc
  obtain ⟨honline, hrev, hact, hgen, hout⟩ :=
    ConnectionLifecycleState.recordHandshake_spec laneId hrevision hgeneration hactive
  refine ⟨⟨?_, fun hoff => ?_, ?_, fun timer hmem => ?_, fun timer hmem hcurrent t ht => ?_, hpoll⟩, ?_, ?_⟩
  · show (s.state.recordHandshake laneId).activeLanes = lanes
    rw [hact, hlanes, hs.lanes]
  · exact absurd (honline.symm.trans hoff) (by simp)
  · show (s.state.recordHandshake laneId).generation = (s.state.recordHandshake laneId).outageGeneration +
      (if (s.state.recordHandshake laneId).online then 1 else 0)
    have hbefore := hs.generation
    rw [hgen, hout, honline]
    cases hon : s.state.online <;> simp [hon] at hbefore ⊢ <;> omega
  · show timer.observationRevision ≤ (s.state.recordHandshake laneId).observationRevision
    rcases mem_append.mp hmem with hold | hnew
    · have := hs.observed timer hold
      omega
    · obtain rfl := mem_singleton.mp hnew
      exact Nat.le_refl _
  · change timer.observationRevision = (s.state.recordHandshake laneId).observationRevision at hcurrent
    rcases mem_append.mp hmem with hold | hnew
    · have := hs.observed timer hold
      omega
    · rw [mem_singleton.mp hnew]
      have := hpoll t ht
      show t + remoteTunnelOnlineTtl ≤ s.now + remoteTunnelOnlineTtl
      omega
  · show (s.state.recordHandshake laneId).generation =
      s.state.generation + (if !s.state.online && (s.state.recordHandshake laneId).online then 1 else 0)
    rw [hgen, honline]
    cases s.state.online <;> rfl
  · show (s.state.recordHandshake laneId).outageGeneration =
      s.state.outageGeneration + (if s.state.online && !(s.state.recordHandshake laneId).online then 1 else 0)
    rw [hout, honline]
    simp

theorem Steady.disconnect {reason : TunnelDisconnectReason} (hs : s.Steady) (hc : s.Counts) (hlane : s.lanes ≠ 0)
    (hquiet : s.lanes = 1 → reason.priority = 0 → s.Quiet) :
    Steady { s with state := s.state.recordStreamDisconnect reason, lanes := s.lanes - 1 } ∧
      Bumps s { s with state := s.state.recordStreamDisconnect reason, lanes := s.lanes - 1 } := by
  have honline : s.state.online = true := by
    by_contra hoff
    exact hlane (hs.outage (by simpa using hoff)).1
  have hbefore := hs.generation
  rw [honline, if_pos rfl] at hbefore
  obtain ⟨hrevision, -, houtage, -⟩ := hc
  obtain ⟨hact, hgen, ⟨hzero, hgraceful, hoff, hrev, hout⟩ | ⟨hon, hrev, hout⟩⟩ :=
    ConnectionLifecycleState.recordStreamDisconnect_spec reason honline hrevision houtage
  · have hlast : s.lanes = 1 := by
      have := hs.lanes
      omega
    refine ⟨⟨by rw [hact, hs.lanes], fun _ => ⟨by show s.lanes - 1 = 0; omega, hquiet hlast hgraceful⟩, ?_,
      fun timer hmem => ?_, fun timer hmem hcurrent => ?_, hs.past⟩, ?_, ?_⟩
    · rw [hgen, hout, hoff, hbefore]
      rfl
    · have := hs.observed timer hmem
      show timer.observationRevision ≤ (s.state.recordStreamDisconnect reason).observationRevision
      omega
    · -- no timer is from this observation
      change timer.observationRevision = (s.state.recordStreamDisconnect reason).observationRevision at hcurrent
      have := hs.observed timer hmem
      omega
    · simp [hgen, honline]
    · simp [hout, honline, hoff]
  · refine ⟨⟨by rw [hact, hs.lanes], fun hoff => ?_, ?_, fun timer hmem => ?_, fun timer hmem hcurrent => ?_, hs.past⟩,
      ?_, ?_⟩
    · exact absurd (hon.symm.trans hoff) (by simp)
    · rw [hgen, hout, hon, hbefore]
      rfl
    · have := hs.observed timer hmem
      show timer.observationRevision ≤ (s.state.recordStreamDisconnect reason).observationRevision
      omega
    · exact hs.window timer hmem (hcurrent.trans hrev)
    · simp [hgen, honline]
    · simp [hout, hon]

theorem Steady.expire {i : ℕ} {timer : ExpiryTimer} (hs : s.Steady) (hc : s.Counts) (htimer : s.timers[i]? = some timer)
    (hdue : timer.due ≤ s.now)
    (hnone : timer.observationRevision = s.state.observationRevision → s.state.online = true → s.lanes = 0) :
    Steady { s with state := s.state.expireIfStale timer.observationRevision, timers := s.timers.eraseIdx i } ∧
      Bumps s { s with state := s.state.expireIfStale timer.observationRevision, timers := s.timers.eraseIdx i } := by
  have hmem : timer ∈ s.timers := mem_of_getElem? htimer
  have hsub : ∀ t ∈ s.timers.eraseIdx i, t ∈ s.timers := fun t ht => mem_of_mem_eraseIdx ht
  by_cases hstale : !s.state.online ∨ s.state.observationRevision ≠ timer.observationRevision
  · have hsame : s.state.expireIfStale timer.observationRevision = s.state := if_pos hstale
    rw [hsame]
    refine ⟨⟨hs.lanes, hs.outage, hs.generation, fun t ht => hs.observed t (hsub t ht), fun t ht => hs.window t (hsub t ht),
      hs.past⟩, ?_, ?_⟩ <;> cases s.state.online <;> rfl
  · have hexpired : s.state.expireIfStale timer.observationRevision = _ := if_neg hstale
    obtain ⟨honline, hcurrent⟩ : s.state.online = true ∧ s.state.observationRevision = timer.observationRevision := by
      simpa using hstale
    have hout := saturatingSucc_of_lt hc.2.2.1
    have hlanes : s.lanes = 0 := hnone hcurrent.symm honline
    have hbefore := hs.generation
    rw [honline, if_pos rfl] at hbefore
    rw [hexpired]
    refine ⟨⟨hlanes.symm, fun _ => ⟨hlanes, fun t ht => ?_⟩, ?_, fun t ht => hs.observed t (hsub t ht),
      fun t ht => hs.window t (hsub t ht), hs.past⟩, ?_, ?_⟩
    · exact Nat.le_trans (hs.window timer hmem hcurrent.symm t ht) hdue
    · show s.state.generation = saturatingSucc s.state.outageGeneration + 0
      omega
    · simp [honline]
    · show saturatingSucc s.state.outageGeneration = _
      simp [honline, hout]

theorem steady_step {a : LifecycleAct} (hs : s.Steady) (hg : s.Unhurried a) (h : s.step a = some s') :
    s'.Steady ∧ Bumps s s' := by
  have hsame : ∀ {t : Lifecycle}, t.state = s.state → Bumps s t := by
    intro t ht
    rw [Bumps, ht]
    cases s.state.online <;> simp
  cases a with
  | connect laneId =>
    cases h
    exact hs.recordHandshake hg rfl hs.past
  | disconnect reason =>
    rw [step, ite_none_left_eq_some] at h
    obtain rfl := some.inj h.2
    exact hs.disconnect hg.1 h.1 hg.2
  | poll =>
    cases h
    refine hs.recordHandshake hg rfl fun t ht => ?_
    obtain rfl := mem_some_iff.mp ht
    exact Nat.le_refl _
  | hear =>
    rw [step, ite_none_left_eq_some] at h
    obtain rfl := some.inj h.2
    exact ⟨⟨hs.lanes, hs.outage, hs.generation, hs.observed, hs.window, hs.past⟩, hsame rfl⟩
  | expire i =>
    simp only [step] at h
    split at h
    next => cases h
    next timer htimer =>
      rw [ite_none_right_eq_some] at h
      obtain rfl := some.inj h.2
      exact hs.expire hg.1 htimer h.1 (hg.2 timer htimer)
  | tick elapsed =>
    cases h
    refine ⟨⟨hs.lanes, fun hoff => ⟨(hs.outage hoff).1, fun t ht => ?_⟩, hs.generation, hs.observed, hs.window,
      fun t ht => ?_⟩, hsame rfl⟩
    · have := (hs.outage hoff).2 t ht
      show t + remoteTunnelOnlineTtl ≤ s.now + elapsed
      omega
    · have := hs.past t ht
      show t ≤ s.now + elapsed
      omega

theorem steady_start : Steady {} where
  lanes := rfl
  outage _ := ⟨rfl, fun t ht => by simp at ht⟩
  generation := rfl
  observed := by simp
  window := by simp
  past := by simp

end Lifecycle

/-- **The lifecycle says what is connected**, in the runs in which no timer fires under a lane, no graceful last lane
leaves right after a poll, and no counter saturates. -/
theorem lifecycle_agrees {s : Lifecycle} (h : lifecycle.Reach Lifecycle.Unhurried {} s) :
    s.Agrees ∧ ∀ a s', s.Unhurried a → lifecycle.step s a = some s' → Lifecycle.Bumps s s' := by
  have hs : s.Steady := h.induct Lifecycle.steady_start fun hs hg hstep => (Lifecycle.steady_step hs hg hstep).1
  exact ⟨hs.agrees, fun a s' hg hstep => (Lifecycle.steady_step hs hg hstep).2⟩

/-- A lane overlaps with the one before it, both leave, and the timer of the second one takes the node offline. -/
def overlappingLanes : List LifecycleAct :=
  [.connect 1, .tick 30000, .connect 2, .disconnect .connectionReset, .hear, .tick 50000, .expire 0, .disconnect .eof,
    .tick 30000, .expire 0]

theorem lifecycle_agrees_overlapping_lanes :
    ∃ s, lifecycle.run Lifecycle.Unhurried overlappingLanes {} = some s ∧ s.state.online = false ∧
      s.state.outageGeneration = 1 ∧ s.Agrees ∧
        ∀ a s', s.Unhurried a → lifecycle.step s a = some s' → Lifecycle.Bumps s s' := by
  have hrun : (lifecycle.run Lifecycle.Unhurried overlappingLanes {}).map (fun s =>
      (s.state.online, s.state.outageGeneration)) = some (false, 1) := by decide
  obtain ⟨s, hs, honline, houtage⟩ := map_pair_eq_some hrun
  exact ⟨s, hs, honline, houtage, lifecycle_agrees (Lts.reach_of_run hs)⟩

/-- A lane connects and stays, and its heartbeats are answered. -/
def stableLane : List LifecycleAct := [.connect 1, .tick 30000, .hear, .tick 30000, .hear, .tick 15000, .expire 0]

theorem expiry_disconnects_connected_lane : ¬ ∀ s, lifecycle.Reach Lts.free {} s → s.Agrees := by
  intro hagrees
  have hrun : (lifecycle.run Lts.free stableLane {}).map (fun s => (s.lanes, s.state.online)) = some (1, false) := by
    decide
  obtain ⟨s, hs, hlanes, honline⟩ := map_pair_eq_some hrun
  have hzero : s.lanes = 0 := ((hagrees s (Lts.reach_of_run hs)).outage honline).1
  omega

end AsterDrive.Tunnel
