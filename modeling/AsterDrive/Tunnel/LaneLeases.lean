import AsterDrive.Tunnel.Responses

/-!
# Tunnel/LaneLeases — when a lane is free again

A lane is leased to one request at a time, and the lease is kept in the entry of `stream_pending`. The future of
`send_stream` removes the entry on each of its errors, the registration guard when the lane is lost, and the
reader when it is dropped. The drop of a reader that has not had the whole response hands the lease to a task,
which tells the follower first. Nobody removes the entry when the future itself is dropped at one of its awaits:
unlike a polled request, which has a `PendingTunnelGuard`, the lane stays leased
(`dropped_future_keeps_lane`). In all other runs the lanes are free when the requests are over
(`lanes_released`).
-/

namespace AsterDrive.Tunnel

open List Option Function List.Subset Primary

/-! ### One lane -/

/-- The lane is in the registry. -/
def Primary.registered (s : Primary) : Prop := s.status = .running ∨ s.status = .closing

/-- An entry has a future or a reader that will remove it, and a lease of a registered lane is in an entry or with a
task. -/
structure Leased (s : Primary) : Prop where
  held : ∀ {r req}, s.requests r = some req → req.response.pending = true → req.response.phase ≠ .over
  leased : s.busy = true → s.registered →
    (∃ r req, s.requests r = some req ∧ req.response.pending = true) ∨ ∃ abort ∈ s.aborts, abort.lease = true

/-- The future of a request is not dropped while its entry is there. -/
def NotDropped (s : Primary) : PrimaryAct → Prop
  | .cancelSend r => ∀ req ∈ s.requests r, req.response.pending = false
  | _ => True

instance (s : Primary) : DecidablePred (NotDropped s) := fun a => by
  unfold NotDropped
  split <;> infer_instance

section Lane

variable {validHeader : String × String → Bool} {s s' : Primary} {r : ℕ} {req req' : Request}

theorem leased_fresh : Leased {} where
  held h := by simp at h
  leased h := by simp at h

theorem Leased.set (hs : Leased s) (hreq : s.requests r = some req)
    (hset : ∀ r', s'.requests r' = if r' = r then some req' else s.requests r')
    (hpending : req'.response.pending = req.response.pending)
    (hphase : req'.response.pending = true → req'.response.phase ≠ .over)
    (hbusy : s'.busy = s.busy) (hstatus : s'.status = s.status) (haborts : s.aborts ⊆ s'.aborts) : Leased s' := by
  constructor
  · intro r' q hq hqpending
    rw [hset] at hq
    split_ifs at hq with hid
    · cases hq
      exact hphase hqpending
    · exact hs.held hq hqpending
  · intro hb hreg
    have hreg : s.registered := by simpa [registered, hstatus] using hreg
    rcases hs.leased (hbusy ▸ hb) hreg with ⟨r0, q, hq, hqpending⟩ | ⟨abort, hmem, hlease⟩
    · left
      by_cases hid : r0 = r
      · subst hid
        obtain rfl := some.inj (hreq.symm.trans hq)
        exact ⟨r0, req', by rw [hset, if_pos rfl], hpending.trans hqpending⟩
      · exact ⟨r0, q, by rw [hset, if_neg hid, hq], hqpending⟩
    · exact .inr ⟨abort, haborts hmem, hlease⟩

theorem Leased.dropPending (hs : Leased s) (hreq : s.requests r = some req)
    (hpending : req'.response.pending = req.response.pending) : Leased (s.dropPending r req') := by
  have hset : ∀ r', (s.dropPending r req').requests r' =
      if r' = r then some { req' with response := req'.response.removePending } else s.requests r' :=
    fun _ => requests_dropPending
  constructor
  · intro r' q hq hqpending
    rw [hset] at hq
    split_ifs at hq with hid
    · cases hq
      simp [Response.removePending] at hqpending
    · exact hs.held hq hqpending
  · intro hb hreg
    have hboth : s.busy = true ∧ req'.response.pending = false := by simpa [Primary.dropPending] using hb
    obtain ⟨hbusy, hgone⟩ := hboth
    rcases hs.leased hbusy hreg with ⟨r0, q, hq, hqpending⟩ | hlease
    · have hid : r0 ≠ r := by
        rintro rfl
        obtain rfl := some.inj (hreq.symm.trans hq)
        rw [hpending, hqpending] at hgone
        cases hgone
      exact .inl ⟨r0, q, by rw [hset, if_neg hid, hq], hqpending⟩
    · exact .inr hlease

theorem Response.read_keeps {res res' : Response} {senders : Bool} (h : res.read senders = some res') :
    res'.pending = res.pending ∧ res'.phase = res.phase := by
  unfold Response.read at h
  split at h
  · split at h
    · cases h
      exact ⟨rfl, rfl⟩
    · cases h
      exact ⟨rfl, rfl⟩
    · cases h
      exact ⟨rfl, rfl⟩
    · split at h
      · cases h
      · cases h
        exact ⟨rfl, rfl⟩
  · cases h

theorem aborts_takeFrame (frame : Frame) : s.aborts ⊆ (s.takeFrame validHeader frame).aborts := by
  have hlog : (s.logReceived frame).aborts = s.aborts := by
    unfold logReceived
    split <;> rfl
  have hstart : ∀ {t : Primary} {q : Request}, t.aborts ⊆ (acceptStart validHeader t q frame).1.aborts := by
    intro t q
    unfold acceptStart
    split
    · exact refl _
    · split_ifs
      all_goals first | exact refl _ | exact subset_append_left _ _
  rw [← hlog]
  unfold takeFrame completeStreamFrame
  split
  · exact refl _
  · unfold acceptFrame
    split
    · exact hstart
    · exact refl _
    · exact refl _
    · dsimp only
      split_ifs <;> exact refl _
    · exact refl _

theorem Leased.taken {frame : Frame} (hs : Leased s) (h : Taken validHeader frame s s') (haborts : s.aborts ⊆ s'.aborts) :
    Leased s' := by
  cases h with
  | unknown => exact hs
  | ignored req hreq | start req hreq | item req hreq =>
    have hphase : req.response.pending = true → req.response.phase ≠ .over := hs.held hreq
    exact hs.set hreq (fun _ => requests_setResponse) rfl hphase rfl rfl haborts

theorem Leased.endAbort {i : ℕ} {abort : Abort} (hs : Leased s) (habort : s.aborts[i]? = some abort) :
    Leased (s.endAbort i abort) := by
  refine ⟨fun hreq => hs.held hreq, fun hb hreg => ?_⟩
  have hboth : s.busy = true ∧ abort.lease = false := by simpa [Primary.endAbort] using hb
  obtain ⟨hbusy, hnone⟩ := hboth
  rcases hs.leased hbusy hreg with hreq | ⟨other, hmem, hlease⟩
  · exact .inl hreq
  · obtain ⟨j, hj⟩ := mem_iff_getElem?.mp hmem
    have hne : j ≠ i := by
      rintro rfl
      obtain rfl := some.inj (habort.symm.trans hj)
      rw [hnone] at hlease
      cases hlease
    exact .inr ⟨other, mem_eraseIdx_iff_getElem?.mpr ⟨j, hne, hj⟩, hlease⟩

theorem leased_step {a : PrimaryAct} (hs : Leased s) (hg : NotDropped s a) (h : primaryStep validHeader s a = some s') :
    Leased s' := by
  have hheld : ∀ {r req}, s.requests r = some req → req.response.pending = true → req.response.phase ≠ .over :=
    fun hreq => hs.held hreq
  cases effect h with
  | began hopens h =>
    simp only [beginSend, ite_none_left_eq_some, some.injEq] at h
    obtain ⟨-, rfl⟩ := h
    constructor
    · intro r q hq hpending
      change Function.update s.requests s.next _ r = some q at hq
      by_cases hid : r = s.next
      · subst hid
        rw [update_self] at hq
        cases hq
        simp
      · rw [update_of_ne hid] at hq
        exact hs.held hq hpending
    · exact fun _ _ => .inl ⟨s.next, _, update_self .., rfl⟩
  | queued hreq =>
    exact hs.set hreq (fun _ => requests_enqueue) rfl (fun _ => by simp) rfl rfl (refl _)
  | upload hreq =>
    have hphase := hheld hreq
    exact hs.set hreq (fun _ => requests_setRequest) rfl hphase rfl rfl (refl _)
  | sent hreq =>
    have hphase := hheld hreq
    exact hs.set hreq (fun _ => requests_enqueue) rfl hphase rfl rfl (refl _)
  | opened hreq =>
    exact hs.set hreq (fun _ => requests_setResponse) rfl (fun _ => by simp) rfl rfl (refl _)
  | dropped hreq => exact hs.dropPending hreq rfl
  | @finished _ r req hreq hgone =>
    have hgone : req.response.pending = false := by
      rcases hgone with hgone | rfl
      · exact hgone
      · exact hg req hreq
    exact hs.set hreq (fun _ => requests_setResponse) rfl (fun h => by simp [Response.finish, hgone] at h) rfl rfl
      (refl _)
  | read hreq hread =>
    obtain ⟨hpending, hphase⟩ := Response.read_keeps hread
    exact hs.set hreq (fun _ => requests_setResponse) hpending
      (fun h => by rw [hphase]; exact hs.held hreq (hpending.symm.trans h)) rfl rfl (refl _)
  | abandoned hreq =>
    -- the task has the lease now
    refine ⟨fun {r' q} hq hpending => ?_, fun _ _ => .inr ⟨_, mem_append_right _ (mem_singleton_self _), rfl⟩⟩
    have hq := requests_setResponse.symm.trans hq
    split_ifs at hq with hid
    · cases hq
      simp [Response.removePending] at hpending
    · exact hs.held hq hpending
  | abortLost habort => exact hs.endAbort habort
  | abortSent habort hopen hreq =>
    have hphase := hheld hreq
    exact (hs.endAbort habort).set hreq (fun _ => requests_enqueue) rfl hphase rfl rfl (refl _)
  | forwarded => exact ⟨hs.held, hs.leased⟩
  | received => exact hs.taken (takeFrame_taken validHeader s _) (aborts_takeFrame _)
  | undelivered =>
    refine ⟨hs.held, fun hb hreg => (hs.leased hb hreg).imp_right ?_⟩
    rintro ⟨abort, hmem, hlease⟩
    exact ⟨abort, mem_append_left _ hmem, hlease⟩
  | delivered hhandling hreq =>
    have hphase := hheld hreq
    exact hs.set hreq (fun _ => requests_setResponse) rfl hphase rfl rfl (refl _)
  | stopped hrun => exact ⟨hs.held, fun hb _ => hs.leased hb (.inl hrun)⟩
  | unregistered =>
    refine ⟨fun {r q} hq hpending => ?_, fun _ hreg => by simp [registered] at hreg⟩
    obtain ⟨req, hreq, rfl⟩ := map_eq_some_iff.mp hq
    simp only [Response.failFor] at hpending
    split_ifs at hpending with hentry
    exact absurd hpending hentry
  | queueDropped => exact ⟨hs.held, fun _ hreg => by simp [registered] at hreg⟩

end Lane

/-! ### The registry -/

/-- The lanes that there have been, and the requests on them. Each entry of `stream_pending` is in its lane. -/
structure StreamRegistry where
  lanes : ℕ → Option Primary := fun _ => none
  opened : ℕ := 0

inductive StreamRegistryAct
  | register
  | onLane (k : ℕ) (a : PrimaryAct)

def streamRegistry (validHeader : String × String → Bool) : Lts StreamRegistry StreamRegistryAct where
  step s
    | .register => some { lanes := Function.update s.lanes s.opened (some {}), opened := s.opened + 1 }
    | .onLane k a => (s.lanes k).bind fun lane =>
      (primaryStep validHeader lane a).map fun lane => { s with lanes := Function.update s.lanes k (some lane) }

namespace StreamRegistry

/-- No future of `send_stream` is dropped while its entry is in `stream_pending`. -/
def NoneDropped (s : StreamRegistry) : StreamRegistryAct → Prop
  | .register => True
  | .onLane k a => ∀ lane ∈ s.lanes k, NotDropped lane a

instance (s : StreamRegistry) : DecidablePred s.NoneDropped
  | .register => .isTrue trivial
  | .onLane k a => inferInstanceAs (Decidable (∀ lane ∈ s.lanes k, NotDropped lane a))

/-- Every future of `send_stream` has returned or was dropped, and every reader was dropped. -/
def Over (s : StreamRegistry) : Prop :=
  ∀ k lane, s.lanes k = some lane → ∀ r req, lane.requests r = some req → req.response.phase = .over

/-- The drop of each reader is through: its task has told the follower, or found the channel closed. -/
def Told (s : StreamRegistry) : Prop := ∀ k lane, s.lanes k = some lane → ∀ abort ∈ lane.aborts, abort.lease = false

/-- `stream_pending` is empty and no registered lane is busy. -/
def Free (s : StreamRegistry) : Prop :=
  ∀ k lane, s.lanes k = some lane →
    (∀ r req, lane.requests r = some req → req.response.pending = false) ∧ (lane.registered → lane.busy = false)

variable {validHeader : String × String → Bool} {s s' : StreamRegistry}

variable {G : StreamRegistry → StreamRegistryAct → Prop}

theorem lanes_induct {I : Primary → Prop} (h0 : I {})
    (hlane : ∀ {s k a lane lane'}, G s (.onLane k a) → s.lanes k = some lane → I lane →
      primaryStep validHeader lane a = some lane' → I lane')
    (h : (streamRegistry validHeader).Reach G {} s) : ∀ k lane, s.lanes k = some lane → I lane := by
  refine h.induct (I := fun s => ∀ k lane, s.lanes k = some lane → I lane) (by simp) fun {s s' a} hs hg hstep k lane hk => ?_
  cases a with
  | register =>
    cases hstep
    change Function.update s.lanes s.opened (some {}) k = some lane at hk
    by_cases hid : k = s.opened
    · rw [hid, update_self] at hk
      cases hk
      exact h0
    · rw [update_of_ne hid] at hk
      exact hs k lane hk
  | onLane j a =>
    obtain ⟨before, hbefore, hstep⟩ := bind_eq_some_iff.mp hstep
    obtain ⟨after, hafter, rfl⟩ := map_eq_some_iff.mp hstep
    change Function.update s.lanes j (some after) k = some lane at hk
    by_cases hid : k = j
    · rw [hid, update_self] at hk
      cases hk
      exact hlane hg hbefore (hs j before hbefore) hafter
    · rw [update_of_ne hid] at hk
      exact hs k lane hk

theorem leased_of_reach (h : (streamRegistry validHeader).Reach NoneDropped {} s) :
    ∀ k lane, s.lanes k = some lane → Leased lane :=
  lanes_induct leased_fresh (fun hg hk hs hstep => leased_step hs (hg _ hk) hstep) h

theorem known_of_reach (h : (streamRegistry validHeader).Reach G {} s) : ∀ k lane, s.lanes k = some lane → Known lane :=
  lanes_induct ⟨fun _ _ => rfl, fun _ => rfl, fun _ h => by simp at h⟩ (fun _ _ hs hstep => hs.step hstep) h

theorem lanes_below (h : (streamRegistry validHeader).Reach G {} s) :
    ∀ k lane, s.lanes k = some lane → k < s.opened := by
  refine h.induct (I := fun s => ∀ k lane, s.lanes k = some lane → k < s.opened) (by simp)
    fun {s s' a} hs _ hstep k lane hk => ?_
  cases a with
  | register =>
    cases hstep
    change Function.update s.lanes s.opened (some {}) k = some lane at hk
    show k < s.opened + 1
    by_cases hid : k = s.opened
    · omega
    · rw [update_of_ne hid] at hk
      have := hs k lane hk
      omega
  | onLane j a =>
    obtain ⟨before, hbefore, hstep⟩ := bind_eq_some_iff.mp hstep
    obtain ⟨after, -, rfl⟩ := map_eq_some_iff.mp hstep
    change Function.update s.lanes j (some after) k = some lane at hk
    by_cases hid : k = j
    · rw [hid]
      exact hs j before hbefore
    · rw [update_of_ne hid] at hk
      exact hs k lane hk

theorem over_of_checked (h : (streamRegistry validHeader).Reach G {} s)
    (hchecked : ∀ k < s.opened, ∀ lane ∈ s.lanes k, (∀ r < lane.next, ∀ req ∈ lane.requests r, req.response.phase = .over) ∧
      ∀ abort ∈ lane.aborts, abort.lease = false) : s.Over ∧ s.Told := by
  refine ⟨fun k lane hlane r req hreq => ?_, fun k lane hlane => (hchecked k (lanes_below h k lane hlane) lane hlane).2⟩
  have hr : r < lane.next := by
    by_contra hge
    rw [(known_of_reach h k lane hlane).fresh r (by omega)] at hreq
    cases hreq
  exact (hchecked k (lanes_below h k lane hlane) lane hlane).1 r hr req hreq

end StreamRegistry

open StreamRegistry

/-- **Leases do not leak**, in the runs in which no future of `send_stream` is dropped while it is pending. -/
theorem lanes_released {validHeader : String × String → Bool} {s : StreamRegistry}
    (h : (streamRegistry validHeader).Reach NoneDropped {} s) (hover : s.Over) (htold : s.Told) : s.Free := by
  intro k lane hlane
  have hs : Leased lane := leased_of_reach h k lane hlane
  have hnone : ∀ r req, lane.requests r = some req → req.response.pending = false := by
    intro r req hreq
    by_contra hpending
    exact hs.held hreq (by simpa using hpending) (hover k lane hlane r req hreq)
  refine ⟨hnone, fun hreg => ?_⟩
  by_contra hbusy
  rcases hs.leased (by simpa using hbusy) hreg with ⟨r, req, hreq, hpending⟩ | ⟨abort, hmem, hlease⟩
  · rw [hnone r req hreq] at hpending
    cases hpending
  · rw [htold k lane hlane abort hmem] at hlease
    cases hlease

/-- A request that times out on one lane, and a reader dropped early on another. -/
def timeoutAndEarlyDrop : List StreamRegistryAct :=
  [.register, .register, .onLane 0 (.beginSend "GET" "/objects/a" [] none ⟨[], .clean⟩ (.direct ⟨[], .clean⟩)),
    .onLane 1 (.beginSend "GET" "/objects/b" [] none ⟨[], .clean⟩ (.direct ⟨[], .clean⟩)),
    .onLane 0 (.queueStart 0), .onLane 1 (.queueStart 0), .onLane 0 (.timeoutStart 0),
    .onLane 1 (.receive { kind := .responseStart, requestId := 0, status := some 200 }), .onLane 1 (.takeStart 0),
    .onLane 1 (.dropReader 0), .onLane 1 (.sendAbort 0)]

theorem lanes_released_two_lanes :
    ∃ s, (streamRegistry fun _ => true).run NoneDropped timeoutAndEarlyDrop {} = some s ∧ s.Over ∧ s.Told ∧ s.Free := by
  have hrun : ((streamRegistry fun _ => true).run NoneDropped timeoutAndEarlyDrop {}).map (fun s =>
      decide (∀ k < s.opened, ∀ lane ∈ s.lanes k, (∀ r < lane.next, ∀ req ∈ lane.requests r, req.response.phase = .over) ∧
        ∀ abort ∈ lane.aborts, abort.lease = false)) = some true := by decide
  obtain ⟨s, hs, hchecked⟩ := map_eq_some_iff.mp hrun
  have hreach := Lts.reach_of_run hs
  obtain ⟨hover, htold⟩ := over_of_checked hreach (of_decide_eq_true hchecked)
  exact ⟨s, hs, hover, htold, lanes_released hreach hover htold⟩

/-- The caller drops the future of `send_stream` while it waits for the follower. -/
def droppedFuture : List StreamRegistryAct :=
  [.register, .onLane 0 (.beginSend "GET" "/objects/a" [] none ⟨[], .clean⟩ (.direct ⟨[], .clean⟩)),
    .onLane 0 (.queueStart 0), .onLane 0 (.cancelSend 0)]

theorem dropped_future_keeps_lane :
    ¬ ∀ s, (streamRegistry fun _ => true).Reach Lts.free {} s → s.Over → s.Told → s.Free := by
  intro hfree
  have hrun : ((streamRegistry fun _ => true).run Lts.free droppedFuture {}).map (fun s =>
      (decide (∀ k < s.opened, ∀ lane ∈ s.lanes k,
          (∀ r < lane.next, ∀ req ∈ lane.requests r, req.response.phase = .over) ∧
            ∀ abort ∈ lane.aborts, abort.lease = false),
        (s.lanes 0).map fun lane => (lane.busy, lane.status))) = some (true, some (true, .running)) := by
    decide
  obtain ⟨s, hs, hchecked, hlane⟩ := map_pair_eq_some hrun
  obtain ⟨lane, hlane, hbusy, hstatus⟩ := map_pair_eq_some hlane
  have hreach := Lts.reach_of_run hs
  obtain ⟨hover, htold⟩ := over_of_checked hreach (of_decide_eq_true hchecked)
  have hidle : lane.busy = false := (hfree s hreach hover htold 0 lane hlane).2 (.inl hstatus)
  rw [hbusy] at hidle
  cases hidle

end AsterDrive.Tunnel
