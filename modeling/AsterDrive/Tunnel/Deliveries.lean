import AsterDrive.Tunnel.RequestBody

/-!
# Tunnel/Deliveries — what the consumer of a response gets was sent for it

The bytes that a reader has got are a part, from the start on, of the bytes that the follower wrote for the same
request. Every run: lanes may break, readers may be dropped and the follower may be in the middle of anything.
-/

namespace AsterDrive.Tunnel

/-! ### From the lane to the reader -/

/-- The bytes of the chunks among some items. -/
def bytesOf (items : List BodyItem) : List UInt8 :=
  items.flatMap fun item => match item with
    | .chunk bytes => bytes
    | _ => []

@[simp] theorem bytesOf_nil : bytesOf [] = [] := rfl

@[simp] theorem bytesOf_append (xs ys : List BodyItem) : bytesOf (xs ++ ys) = bytesOf xs ++ bytesOf ys := by
  simp [bytesOf]

@[simp] theorem bytesOf_chunk (bytes : List UInt8) (items : List BodyItem) :
    bytesOf (.chunk bytes :: items) = bytes ++ bytesOf items := rfl

@[simp] theorem bytesOf_failure (message : String) (items : List BodyItem) :
    bytesOf (.failure message :: items) = bytesOf items := rfl

@[simp] theorem bytesOf_finished (items : List BodyItem) : bytesOf (.finished :: items) = bytesOf items := rfl

theorem bytes_of_frameItem {frame : Frame} {item : BodyItem} (h : frameItem frame = some item) :
    payload .responseBody [frame] = bytesOf [item] := by
  unfold frameItem at h
  split at h
  · rename_i hkind
    cases h
    simp [hkind]
  · rename_i hkind
    cases h
    simp [hkind]
  · rename_i hkind
    cases h
    simp [hkind]
  · simp at h

theorem bytes_of_no_item {frame : Frame} (h : frameItem frame = none) : payload .responseBody [frame] = [] := by
  have hkind : frame.kind ≠ .responseBody := fun hkind => by simp [frameItem, hkind] at h
  simp [hkind]

/-- What was read and what is in the channel come from the received frames. As long as somebody may still read, nothing of
them is missing. -/
structure Delivers (v : View) : Prop where
  within : v.response.got ++ bytesOf v.response.body <+: payload .responseBody v.response.received
  whole : v.running = true → v.response.receiving = true → v.response.pending = true →
    v.response.got ++ bytesOf v.response.body ++ bytesOf v.inflight = payload .responseBody v.response.received

theorem delivers_fresh (running : Bool) : Delivers ⟨running, {}, []⟩ := ⟨List.nil_prefix, fun _ _ _ => rfl⟩

namespace Delivers

variable {v v' : View} {a : PrimaryAct}

theorem read {res : Response} (hv : Delivers v)
    (h : v.response.read (v.response.pending || !v.inflight.isEmpty) = some res) : Delivers { v with response := res } := by
  have hwhole := hv.whole
  have hwithin := hv.within
  obtain ⟨⟨hphase, houtcome⟩, h⟩ := Option.ite_none_right_eq_some.mp h
  have hreceiving : v.response.receiving = true := by simp [Response.receiving, hphase, houtcome]
  split at h <;> rename_i hbody
  · cases h
    rw [hbody] at hwithin hwhole
    refine ⟨by simpa using hwithin, fun hrun _ hpending => ?_⟩
    simpa using hwhole hrun hreceiving hpending
  · cases h
    rw [hbody] at hwithin hwhole
    exact ⟨by simpa using hwithin, fun hrun _ hpending => by simpa using hwhole hrun hreceiving hpending⟩
  · cases h
    rw [hbody] at hwithin hwhole
    exact ⟨by simpa using hwithin, fun hrun _ hpending => by simpa using hwhole hrun hreceiving hpending⟩
  · obtain ⟨-, h⟩ := Option.ite_none_left_eq_some.mp h
    cases h
    exact ⟨hwithin, fun hrun _ hpending => hwhole hrun hreceiving hpending⟩

theorem received {frame : Frame} {res : Response} {items : List BodyItem} (hv : Delivers v)
    (hrun : v.running = true) (hidle : v.inflight = []) (h : Accepts frame v.response res items) :
    Delivers { v with response := res, inflight := items } := by
  have hmore : v.response.got ++ bytesOf v.response.body <+:
      payload .responseBody (v.response.received ++ [frame]) := by
    rw [payload_append]
    exact hv.within.trans (List.prefix_append _ _)
  have hwhole := hv.whole hrun
  rw [hidle, bytesOf_nil, List.append_nil] at hwhole
  cases h with
  | ignored hwhy =>
    refine ⟨hmore, fun _ hreceiving hpending => ?_⟩
    have hpending' : v.response.pending = true := hpending
    have hnone : frameItem frame = none := hwhy.resolve_left (by simp [hpending'])
    show v.response.got ++ bytesOf v.response.body ++ bytesOf [] = payload .responseBody (v.response.received ++ [frame])
    rw [payload_append, bytes_of_no_item hnone]
    simpa using hwhole hreceiving hpending
  | start start hpending htx hstart hkind hitem =>
    refine ⟨hmore, fun _ hreceiving _ => ?_⟩
    show v.response.got ++ bytesOf v.response.body ++ bytesOf [] = payload .responseBody (v.response.received ++ [frame])
    simpa [hkind] using hwhole hreceiving hpending
  | item item complete hpending hitem =>
    refine ⟨hmore, fun _ hreceiving _ => ?_⟩
    show v.response.got ++ bytesOf v.response.body ++ bytesOf [item] = payload .responseBody (v.response.received ++ [frame])
    rw [payload_append, bytes_of_frameItem hitem, hwhole hreceiving hpending]

/-- **Step lemma.** -/
theorem step (hv : Delivers v) (hs : Steady v) (h : ViewStep a v v') : Delivers v' := by
  cases h with
  | same => exact hv
  | queued hphase | opened hphase hstart =>
    exact ⟨hv.within, fun hrun _ hpending => hv.whole hrun (by simp [Response.receiving, hphase]) hpending⟩
  | gaveUp pending => exact ⟨hv.within, fun _ h => by simp [Response.receiving] at h⟩
  | read res hread => exact hv.read hread
  | received frame res items hact hrun hidle haccepts => exact hv.received hrun hidle haccepts
  | delivered item hitem hreceiving =>
    -- an item is in flight, so the lane loop runs and the request is pending
    have hrun : v.running = true := by
      by_contra hstop
      simp [hs.idle (by simpa using hstop)] at hitem
    have hpending : v.response.pending = true := by
      by_contra hgone
      have hover : v.response.phase ≠ .over := fun hover => by simp [Response.receiving, hover] at hreceiving
      simp [hs.stopped hover (by simpa using hgone)] at hrun
    have hall := hv.whole hrun hreceiving hpending
    rw [hitem, List.append_assoc, ← bytesOf_append] at hall
    refine ⟨?_, fun _ _ _ => ?_⟩
    · change v.response.got ++ bytesOf (v.response.body ++ [item]) <+: payload .responseBody v.response.received
      exact hall ▸ List.prefix_rfl
    · simpa using hall
  | undelivered hreceiving => exact ⟨hv.within, fun _ h => by simp [hreceiving] at h⟩
  | stopped => exact ⟨hv.within, fun h => by simp at h⟩
  | failed message hact hrun =>
    refine ⟨?_, fun h => by simp [hrun] at h⟩
    have hwithin := hv.within
    unfold Response.failFor
    split_ifs
    · exact hwithin
    · simpa using hwithin
    · exact hwithin
    · exact hwithin

end Delivers

/-! ### From the follower to the lane -/

theorem ViewStep.received_eq {v v' : View} {a : PrimaryAct} (h : ViewStep a v v') (ha : ∀ frame, a ≠ .receive frame) :
    v'.response.received = v.response.received := by
  cases h with
  | read res hread =>
    obtain ⟨-, hread⟩ := Option.ite_none_right_eq_some.mp hread
    split at hread
    · exact (Option.some.inj hread) ▸ rfl
    · exact (Option.some.inj hread) ▸ rfl
    · exact (Option.some.inj hread) ▸ rfl
    · exact (Option.some.inj (Option.ite_none_left_eq_some.mp hread).2) ▸ rfl
  | received frame res items hact => exact absurd hact (ha frame)
  | failed message =>
    show (v.response.failFor message).received = v.response.received
    unfold Response.failFor
    split_ifs <;> rfl
  | _ => rfl

/-- What a step takes from the follower. -/
def PrimaryAct.takes : PrimaryAct → List Frame
  | .receive frame => [frame]
  | _ => []

theorem received_step {validHeader : String × String → Bool} {s s' : Primary} {a : PrimaryAct} {r : ℕ} {req : Request}
    (h : primaryStep validHeader s a = some s') (hknown : Known s) (hreq : s'.requests r = some req) :
    (∃ req1, s.requests r = some req1 ∧ req.response.received = req1.response.received ++ framesOf r a.takes) ∨
      s.requests r = none ∧ req.response.received = [] := by
  by_cases hreceive : ∃ frame, a = .receive frame
  · obtain ⟨frame, rfl⟩ := hreceive
    simp only [primaryStep, Option.ite_none_right_eq_some, Option.some.injEq] at h
    obtain ⟨⟨-, hidle⟩, rfl⟩ := h
    have htaken := takeFrame_taken validHeader s frame
    by_cases hid : frame.requestId = r
    · subst hid
      obtain ⟨req1, h1, haccepts⟩ := htaken.accepts hidle hreq
      refine .inl ⟨req1, h1, ?_⟩
      simp only [PrimaryAct.takes, framesOf_cons, if_true, framesOf_nil]
      generalize Primary.inflight _ frame.requestId = items at haccepts
      generalize req.response = res at haccepts
      cases haccepts <;> rfl
    · refine .inl ⟨req, (htaken.other hidle hid).1 ▸ hreq, ?_⟩
      simp [PrimaryAct.takes, framesOf_cons, hid]
  · have hnone : ∀ frame, a ≠ .receive frame := fun frame ha => hreceive ⟨frame, ha⟩
    have hempty : a.takes = [] := by
      unfold PrimaryAct.takes
      split
      · rename_i frame
        exact absurd rfl (hnone frame)
      · rfl
    rw [hempty, framesOf_nil]
    simp only [List.append_nil]
    rcases view_step h hknown.handled (hknown.fresh _ (Nat.le_refl _)) hreq with ⟨req1, h1, hview⟩ | ⟨hnew, hres, -⟩
    · refine .inl ⟨req1, h1, ?_⟩
      exact hview.received_eq hnone
    · exact .inr ⟨hnew, by rw [hres]⟩

/-- The invariant over the whole way back. -/
structure Relayed (s : Lane) : Prop where
  views : ∀ r req, s.primary.requests r = some req → Steady (s.primary.view r req) ∧ Delivers (s.primary.view r req)
  heard : ∀ r req, s.primary.requests r = some req → req.response.received ++ framesOf r s.up = s.follower.sent r
  upstream : ∀ f ∈ s.up ++ s.follower.outbox, s.follower.accepted f.requestId ≠ []
  serving : ∀ r, s.follower.phase.request = some r → s.follower.accepted r ≠ []
  sent : ∀ r, s.follower.sent r ≠ [] → s.follower.accepted r ≠ []

theorem request_of_stopped {phase : ServePhase} (h : phase.isStopped = true) : phase.request = none := by
  cases phase with
  | stopped exit => rfl
  | _ => simp [ServePhase.isStopped] at h

namespace Relayed

variable {validHeader : String × String → Bool} {isAllowedTunnelTarget validMethod : String → Bool}
variable {s s' : Lane} {a : LaneAct} {b : PrimaryAct} {primary : Primary} {r : ℕ}

/-- Nothing was taken from the follower, or is on its way from it, for a request that is not known. -/
theorem unknown (hs : Relayed s) (hc : Carried s) (hnone : s.primary.requests r = none) :
    s.follower.sent r = [] ∧ framesOf r s.up = [] := by
  have haccepted : s.follower.accepted r = [] := by
    have hprefix := hc.wired.accepted r
    rw [Primary.sentOf, hnone] at hprefix
    exact List.prefix_nil.mp hprefix
  refine ⟨by_contra fun h => hs.sent r h haccepted, List.filter_eq_nil_iff.mpr fun f hf hid => ?_⟩
  obtain rfl : f.requestId = r := by simpa using hid
  exact hs.upstream f (List.mem_append.mpr (.inl hf)) haccepted

theorem primary_step (hs : Relayed s) (hc : Carried s) (h : primaryStep validHeader s.primary b = some primary)
    {up : List Frame} (hup : s.up = b.takes ++ up) : Relayed { s with primary, up } := by
  refine ⟨fun r req hreq => ?_, fun r req hreq => ?_, fun f hf => ?_, hs.serving, hs.sent⟩
  · rcases view_step h hc.known.handled (hc.known.fresh _ (Nat.le_refl _)) hreq with ⟨req1, h1, hview⟩ | ⟨-, hres, hidle⟩
    · obtain ⟨hsteady, hdelivers⟩ := hs.views r req1 h1
      exact ⟨hsteady.step hview, hdelivers.step hsteady hview⟩
    · rw [Primary.view, hres, hidle]
      exact ⟨steady_fresh _, delivers_fresh _⟩
  · rcases received_step h hc.known hreq with ⟨req1, h1, hreceived⟩ | ⟨hnew, hreceived⟩
    · have hsent := hs.heard r req1 h1
      rw [hup, framesOf_append] at hsent
      rw [← hsent, hreceived, List.append_assoc]
    · obtain ⟨hsent, hnone⟩ := hs.unknown hc hnew
      rw [hup, framesOf_append] at hnone
      simp only [hreceived, hsent, (List.append_eq_nil_iff.mp hnone).2, List.append_nil]
  · refine hs.upstream f ?_
    rw [hup]
    rcases List.mem_append.mp hf with hf | hf
    · simp [show f ∈ up from hf]
    · simp [show f ∈ s.follower.outbox from hf]

theorem follower_step {follower : Follower} {down : List Frame} (hs : Relayed s)
    (hsent : follower.sent = s.follower.sent)
    (haccepted : ∀ r, s.follower.accepted r ≠ [] → follower.accepted r ≠ [])
    (houtbox : ∀ g ∈ follower.outbox, g ∈ s.follower.outbox ∨ follower.accepted g.requestId ≠ [])
    (hserving : ∀ r, follower.phase.request = some r → s.follower.phase.request = some r ∨ follower.accepted r ≠ []) :
    Relayed { s with follower, down } := by
  refine ⟨hs.views, fun r req hreq => ?_, fun f hf => ?_, fun r hr => ?_, fun r hr => ?_⟩
  · exact (hs.heard r req hreq).trans (congrFun hsent.symm r)
  · rcases List.mem_append.mp hf with hf | hf
    · exact haccepted _ (hs.upstream f (List.mem_append.mpr (.inl hf)))
    · rcases houtbox f hf with hold | hnew
      · exact haccepted _ (hs.upstream f (List.mem_append.mpr (.inr hold)))
      · exact hnew
  · rcases hserving r hr with hold | hnew
    · exact haccepted r (hs.serving r hold)
    · exact hnew
  · exact haccepted r (hs.sent r (hsent ▸ hr))

theorem accept_grows {f : Follower} {frame : Frame} (h : f.accepted r ≠ []) :
    (f.accept frame.requestId frame).accepted r ≠ [] := by
  by_cases hid : r = frame.requestId
  · simp [Follower.accept, hid]
  · simpa [Follower.accept, hid] using h

theorem accept_own (f : Follower) (frame : Frame) : (f.accept frame.requestId frame).accepted frame.requestId ≠ [] := by
  simp [Follower.accept]

/-- **Step lemma.** -/
theorem step (hs : Relayed s) (hc : Carried s) (h : laneStep validHeader isAllowedTunnelTarget validMethod s a = some s') :
    Relayed s' := by
  cases a with simp only [laneStep] at h
  | primary b =>
    obtain ⟨hinner, h⟩ := Option.ite_none_right_eq_some.mp h
    obtain ⟨primary, hstep, rfl⟩ := Option.map_eq_some_iff.mp h
    refine hs.primary_step hc hstep ?_
    unfold PrimaryAct.takes
    split
    · simp [PrimaryAct.isInner] at hinner
    · rfl
  | forward =>
    split at h
    · simp at h
    · obtain ⟨primary, hstep, rfl⟩ := Option.map_eq_some_iff.mp h
      have hrelayed := hs.primary_step hc hstep rfl
      exact ⟨hrelayed.views, hrelayed.heard, hrelayed.upstream, hrelayed.serving, hrelayed.sent⟩
  | receive =>
    split at h
    · simp at h
    · rename_i frame up hup
      obtain ⟨primary, hstep, rfl⟩ := Option.map_eq_some_iff.mp h
      exact hs.primary_step hc hstep hup
  | flush =>
    split at h
    · simp at h
    · rename_i frame outbox houtbox
      have howner := hs.upstream frame (by simp [houtbox])
      split at h
      · simp at h
      · cases h
        refine ⟨hs.views, fun r req hreq => ?_, fun f hf => ?_, hs.serving, fun r hr => ?_⟩
        · have hheard := hs.heard r req hreq
          by_cases hid : frame.requestId = r
          · subst hid
            simp [framesOf_cons, ← hheard]
          · simp [framesOf_cons, hid, Ne.symm hid, hheard]
        · refine hs.upstream f ?_
          rw [houtbox]
          simpa [or_assoc] using hf
        · by_cases hid : r = frame.requestId
          · exact hid ▸ howner
          · exact hs.sent r (by simpa [hid] using hr)
  | take =>
    split at h
    · rename_i frame down hdown houtbox
      obtain ⟨follower, htake, rfl⟩ := Option.map_eq_some_iff.mp h
      cases take_takes htake with
      | stops f' hstop haccepted hlocals hout hsent =>
        refine hs.follower_step hsent (fun r h => by rwa [haccepted]) (fun g hg => .inl (hout ▸ hg)) fun r hr => ?_
        rw [request_of_stopped hstop] at hr
        simp at hr
      | starts hidle hkind | ends l hphase =>
        refine hs.follower_step rfl (fun r h => accept_grows h) (fun g hg => .inl hg) fun r hr => .inr ?_
        obtain rfl : frame.requestId = r := by simpa [ServePhase.request] using hr
        exact accept_own _ _
      | refuses hidle hkind =>
        refine hs.follower_step rfl (fun r h => accept_grows h) (fun g hg => .inr ?_) fun r hr => .inr ?_
        · rw [errorResponse_ids hg]
          exact accept_own _ _
        · obtain rfl : frame.requestId = r := by simpa [ServePhase.request] using hr
          exact accept_own _ _
      | body l l' hphase | drains hphase =>
        exact hs.follower_step rfl (fun r h => accept_grows h) (fun g hg => .inl hg) fun r hr => .inl hr
      | cancelled l hphase | drained hphase =>
        exact hs.follower_step rfl (fun r h => accept_grows h) (fun g hg => .inl hg) fun r hr => by simp [ServePhase.request] at hr
    · simp at h
  | follower b =>
    obtain ⟨follower, hact, rfl⟩ := Option.map_eq_some_iff.mp h
    have hkeep := act_keeps hact
    have hrelayed : Relayed { s with follower, down := s.down } := by
      refine hs.follower_step hkeep.sent (fun r h => hkeep.accepted ▸ h) (fun g hg => ?_) fun r hr => .inl (hkeep.request r hr)
      rcases hkeep.writes g hg with hold | hserving
      · exact .inl hold
      · exact .inr (hkeep.accepted ▸ hs.serving _ hserving)
    exact hrelayed

end Relayed

theorem relayed_of_reach {validHeader : String × String → Bool} {isAllowedTunnelTarget validMethod : String → Bool}
    {G : Lane → LaneAct → Prop} {s : Lane} (h : (lane validHeader isAllowedTunnelTarget validMethod).Reach G {} s) :
    Relayed s := by
  refine h.strengthen carried_of_reach ⟨by simp, by simp, by simp, by simp [ServePhase.request], by simp⟩ ?_
  intro s s' a hs hc _ _ hstep
  exact hs.step hc hstep

/-- **Deliveries.** A reader gets nothing but what the follower wrote for its request, from the start on and in order. -/
theorem got_of_sent {s : Lane} {r : ℕ} {req : Request} (hs : Relayed s) (hreq : s.primary.requests r = some req) :
    req.response.got <+: payload .responseBody (s.follower.sent r) := by
  have hgot := (List.prefix_append _ _).trans (hs.views r req hreq).2.within
  refine hgot.trans (payload_isPrefix ?_)
  rw [← hs.heard r req hreq]
  exact List.prefix_append _ _

end AsterDrive.Tunnel
