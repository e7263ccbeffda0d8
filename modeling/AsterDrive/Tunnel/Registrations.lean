import AsterDrive.Lib.GuardedMap
import Mathlib.Data.Int.Basic

/-!
# Tunnel/Registrations — the connections of the followers that the primary knows

`stream_lanes` of `tunnel/server/registry/streaming.rs` and `connections` of `registry/polling.rs`, both under
the access key of the remote node. A lane is pushed behind the lanes of the node, a poll takes the place of
the poll before it. Their guards leave in two operations on the map: `unregister_stream_lane_if_same` takes
the lane out of the vector and removes an empty vector afterwards, `unregister_if_same` compares first and
removes afterwards. Each operation on a map is one step, and `new_uuid` draws no id twice.
-/

namespace AsterDrive.Tunnel

open GuardedMap List Option

/-- What a guard compares: the node, and the lane id or connection id drawn for it. -/
structure RegistrationId where
  remoteNodeId : ℤ
  id : ℕ
  deriving DecidableEq

structure StreamingTunnelLane where
  laneId : ℕ
  remoteNodeId : ℤ
  deriving DecidableEq

structure RemoteTunnelConnection where
  connectionId : ℕ
  remoteNodeId : ℤ

/-- `entry(..).or_default().push(lane)` -/
def registerStreamLane (lanes : Option (List StreamingTunnelLane)) (g : RegistrationId) : List StreamingTunnelLane :=
  lanes.getD [] ++ [⟨g.id, g.remoteNodeId⟩]

/-- The `retain` of the drop, and `should_remove_entry`. -/
def unregisterStreamLaneIfSame (lanes : List StreamingTunnelLane) (g : RegistrationId) :
    List StreamingTunnelLane × Bool :=
  let lanes := lanes.filter fun lane => !(lane.remoteNodeId == g.remoteNodeId && lane.laneId == g.id)
  (lanes, lanes.isEmpty)

/-- `connections.insert(..)` -/
def registerPoll (_ : Option RemoteTunnelConnection) (g : RegistrationId) : RemoteTunnelConnection :=
  ⟨g.id, g.remoteNodeId⟩

/-- `should_remove` of the drop. -/
def unregisterIfSame (entry : RemoteTunnelConnection) (g : RegistrationId) : RemoteTunnelConnection × Bool :=
  (entry, entry.remoteNodeId == g.remoteNodeId && entry.connectionId == g.id)

def streamLanes : Slot RegistrationId (List StreamingTunnelLane) where
  register := registerStreamLane
  check := unregisterStreamLaneIfSame
  members lanes := lanes.map fun lane => ⟨lane.remoteNodeId, lane.laneId⟩
  replaces := false

def connections : Slot RegistrationId RemoteTunnelConnection where
  register := registerPoll
  check := unregisterIfSame
  members entry := [⟨entry.remoteNodeId, entry.connectionId⟩]
  replaces := true

theorem mem_streamLanes {lanes : List StreamingTunnelLane} {g : RegistrationId} :
    g ∈ streamLanes.members lanes ↔ ⟨g.id, g.remoteNodeId⟩ ∈ lanes := by
  constructor
  · intro h
    obtain ⟨lane, hlane, rfl⟩ := List.mem_map.mp h
    exact hlane
  · exact fun h => List.mem_map.mpr ⟨_, h, rfl⟩

theorem mem_unregisterStreamLaneIfSame {lanes : List StreamingTunnelLane} {g u : RegistrationId} :
    u ∈ streamLanes.members (streamLanes.check lanes g).1 ↔ u ∈ streamLanes.members lanes ∧ u ≠ g := by
  have hsame : (¬ u.remoteNodeId = g.remoteNodeId ∨ ¬ u.id = g.id) ↔ u ≠ g := by
    cases u
    cases g
    simp [imp_iff_not_or]
  rw [mem_streamLanes, mem_streamLanes, ← hsame]
  simp [streamLanes, unregisterStreamLaneIfSame, mem_filter]

theorem lawful_streamLanes : streamLanes.Lawful where
  mem_register {lanes g u} := by
    have hself : (⟨u.id, u.remoteNodeId⟩ : StreamingTunnelLane) = ⟨g.id, g.remoteNodeId⟩ ↔ u = g := by
      cases u
      cases g
      simp [and_comm]
    simp only [mem_streamLanes]
    cases lanes with
    | none => simpa [streamLanes, registerStreamLane] using hself
    | some lanes =>
      show _ ∈ lanes ++ [_] ↔ _
      rw [mem_append, mem_singleton, hself]
      simp [streamLanes, or_comm]
  of_check h := ((mem_unregisterStreamLaneIfSame).mp h).1
  check_other h hne := (mem_unregisterStreamLaneIfSame).mpr ⟨h, hne⟩
  of_remove {lanes g u} hempty hu := by
    have hnil : (streamLanes.check lanes g).1 = [] := List.isEmpty_iff.mp hempty
    rw [hnil] at hu
    simp [streamLanes] at hu
  of_stay _ h := ((mem_unregisterStreamLaneIfSame).mp h).2 rfl
  ne_nil_of_stay {lanes g} hstay hnil := by
    have hempty : (streamLanes.check lanes g).1 = [] := map_eq_nil_iff.mp hnil
    have hremove : (streamLanes.check lanes g).2 = true := List.isEmpty_iff.mpr hempty
    rw [hstay] at hremove
    cases hremove

theorem lawful_connections : connections.Lawful where
  mem_register := by simp [connections, registerPoll]
  of_check h := h
  check_other h _ := h
  of_remove {entry g u} hsame hu := by
    obtain rfl : u = ⟨entry.remoteNodeId, entry.connectionId⟩ := mem_singleton.mp hu
    obtain ⟨hnode, hid⟩ : entry.remoteNodeId = g.remoteNodeId ∧ entry.connectionId = g.id := by
      simpa [connections, unregisterIfSame] using hsame
    cases g
    simp_all
  of_stay {entry g} hstay hmem := by
    obtain rfl : g = ⟨entry.remoteNodeId, entry.connectionId⟩ := mem_singleton.mp hmem
    simp [connections, unregisterIfSame] at hstay
  ne_nil_of_stay _ := by simp [connections]

/-! ### The registry -/

abbrev LaneRegistry := GuardedMap.State String RegistrationId (List StreamingTunnelLane)
abbrev PollRegistry := GuardedMap.State String RegistrationId RemoteTunnelConnection

/-- `stream_lanes` and `connections` with the guards of what is registered in them. -/
structure Registrations where
  lanes : LaneRegistry
  polls : PollRegistry

inductive RegistrationAct
  | lane (a : Act String RegistrationId)
  | poll (a : Act String RegistrationId)

namespace Registrations

def empty : Registrations := ⟨.empty, .empty⟩

end Registrations

def registrations : Lts Registrations RegistrationAct where
  step s
    | .lane a => ((guarded streamLanes).step s.lanes a).map fun lanes => { s with lanes }
    | .poll a => ((guarded connections).step s.polls a).map fun polls => { s with polls }

/-- No connection registers between the check of a drop that found its vector empty, or its own poll, and the
removal of that entry. -/
def NoneBetween (s : Registrations) : RegistrationAct → Prop
  | .lane a => Apart s.lanes a
  | .poll a => Apart s.polls a

instance (s : Registrations) : DecidablePred (NoneBetween s)
  | .lane a => inferInstanceAs (Decidable (Apart s.lanes a))
  | .poll a => inferInstanceAs (Decidable (Apart s.polls a))

/-- A registration whose guard exists, and that no later poll of the key has replaced, is in its map. -/
def Registrations.Kept (s : Registrations) : Prop :=
  (∀ r, s.lanes.Current streamLanes r → s.lanes.Registered streamLanes r) ∧
    ∀ r, s.polls.Current connections r → s.polls.Registered connections r

/-- Nothing is left under a key whose guards have all been dropped. -/
def Registrations.Cleared (s : Registrations) : Prop :=
  ∀ k, (s.lanes.AllDropped k → s.lanes.entries k = none) ∧ (s.polls.AllDropped k → s.polls.entries k = none)

variable {s s' : Registrations}

theorem lanes_of_reach (h : Lts.Reach registrations NoneBetween .empty s) :
    Lts.Reach (guarded streamLanes) Apart .empty s.lanes := by
  refine h.project (·.lanes) fun {s s' a} hg hstep => ?_
  cases a with
  | lane a =>
    obtain ⟨lanes, hlanes, rfl⟩ := map_eq_some_iff.mp hstep
    exact .inr ⟨a, hg, hlanes⟩
  | poll a =>
    obtain ⟨polls, -, rfl⟩ := map_eq_some_iff.mp hstep
    exact .inl rfl

theorem polls_of_reach (h : Lts.Reach registrations NoneBetween .empty s) :
    Lts.Reach (guarded connections) Apart .empty s.polls := by
  refine h.project (·.polls) fun {s s' a} hg hstep => ?_
  cases a with
  | lane a =>
    obtain ⟨lanes, -, rfl⟩ := map_eq_some_iff.mp hstep
    exact .inl rfl
  | poll a =>
    obtain ⟨polls, hpolls, rfl⟩ := map_eq_some_iff.mp hstep
    exact .inr ⟨a, hg, hpolls⟩

/-- **Registrations stay**, as long as none of a key falls between a check and the removal it asked for. -/
theorem live_registration_kept (h : Lts.Reach registrations NoneBetween .empty s) : s.Kept ∧ s.Cleared := by
  have hlanes : Tidy streamLanes s.lanes := tidy_of_reach lawful_streamLanes (lanes_of_reach h)
  have hpolls : Tidy connections s.polls := tidy_of_reach lawful_connections (polls_of_reach h)
  refine ⟨⟨fun r hr => hlanes.current hr, fun r hr => hpolls.current hr⟩, fun k => ⟨?_, ?_⟩⟩
  · exact hlanes.absent
  · exact hpolls.absent

/-- Two connections of a node, by lane and by poll, whose drops are over before the next one comes. -/
def reconnects : List RegistrationAct :=
  let first : Registration String RegistrationId := ⟨"access", 7, 1⟩
  let second : Registration String RegistrationId := ⟨"access", 7, 2⟩
  [.lane (.register first), .poll (.register first), .poll (.register second), .lane (.check first),
    .poll (.check first), .lane (.remove first), .lane (.register second), .poll (.check second)]

theorem live_registration_kept_reconnects :
    ∃ s, registrations.run NoneBetween reconnects .empty = some s ∧ s.Kept ∧ s.Cleared := by
  have hrun : (registrations.run NoneBetween reconnects .empty).isSome := by decide
  obtain ⟨s, hs⟩ := isSome_iff_exists.mp hrun
  exact ⟨s, hs, live_registration_kept (Lts.reach_of_run hs)⟩

/-- The node connects again, by lane and by poll, while the drops of its first connection are between check and
removal. -/
def overlappingReconnects : List RegistrationAct :=
  let first : Registration String RegistrationId := ⟨"access", 7, 1⟩
  let second : Registration String RegistrationId := ⟨"access", 7, 2⟩
  [.lane (.register first), .poll (.register first), .lane (.check first), .poll (.check first),
    .lane (.register second), .poll (.register second), .lane (.remove first), .poll (.remove first)]

theorem overlapping_reconnect_loses_registration :
    ¬ ∀ s, Lts.Reach registrations Lts.free .empty s → s.Kept ∧ s.Cleared := by
  intro hkept
  have hrun : (registrations.run Lts.free overlappingReconnects .empty).map
      (fun s => (s.lanes.entries "access", s.lanes.phase ⟨7, 2⟩, s.lanes.history)) =
      some (none, .held, [⟨"access", 7, 2⟩, ⟨"access", 7, 1⟩]) := by decide
  obtain ⟨s, hs, hstate⟩ := map_eq_some_iff.mp hrun
  simp only [Prod.mk.injEq] at hstate
  obtain ⟨hentry, hphase, hhistory⟩ := hstate
  obtain ⟨v, hv, -⟩ := (hkept s (Lts.reach_of_run hs)).1.1 ⟨"access", 7, 2⟩
    ⟨hphase, [], [⟨"access", 7, 1⟩], hhistory, fun _ _ hmem => by simp at hmem⟩
  rw [hentry] at hv
  cases hv

end AsterDrive.Tunnel
