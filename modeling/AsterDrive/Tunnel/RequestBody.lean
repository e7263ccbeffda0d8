import AsterDrive.Tunnel.Follower
import AsterDrive.Tunnel.Uploads

/-!
# Tunnel/RequestBody — a request body is not cut short on its way

The body goes from the caller, or from the HTTP payload of another node through a bridge, to the body task of
the primary, through the request channel and the connection to the follower, and through a channel to the
local HTTP request. `Carried` is the invariant over the whole way: what the follower has accepted, what is on
the connection and what is in the channel are, in this order, what the primary has queued, and what the local
request has seen and what is in its channel are what the follower has accepted.

Every hop hands an error on as an error, but one: `bridge_payload` drops its writer when the payload is an error,
and its reader takes that for the end (`request_body_truncated`). Where the bridge meets no error, a body that ends
at the local request is the whole body (`request_body_whole`).
-/

namespace AsterDrive.Tunnel

open List Option Function Follower ServePhase

def ServePhase.isStopped : ServePhase → Bool
  | .stopped _ => true
  | _ => false

/-- The request that the follower serves. -/
def ServePhase.request : ServePhase → Option ℕ
  | .reading r | .waiting r | .responding r | .draining r => some r
  | .idle | .stopped _ => none

section Take

variable {isAllowedTunnelTarget validMethod : String → Bool} {f f' : Follower} {frame : Frame} {r : ℕ}

/-- Everything that the follower can do with a frame that it reads. -/
inductive Takes (f : Follower) (frame : Frame) : Follower → Prop
  | stops (f' : Follower) (hphase : f'.phase.isStopped = true) (haccepted : f'.accepted = f.accepted)
      (hlocals : ∀ r l', f'.locals r = some l' → ∃ l, f.locals r = some l ∧ (l' = l ∨ l' = { l with rx := false }))
      (hout : f'.outbox = f.outbox) (hsent : f'.sent = f.sent) : Takes f frame f'
  | starts (hidle : f.phase = .idle) (hkind : frame.kind = .requestStart) :
      Takes f frame { (f.accept frame.requestId frame).setLocal frame.requestId {} with phase := .reading frame.requestId }
  | refuses (hidle : f.phase = .idle) (hkind : frame.kind = .requestStart) :
      Takes f frame { f.accept frame.requestId frame with
        phase := .draining frame.requestId
        outbox := errorResponseFrames frame.requestId 403 forbiddenTunnelTargetBody }
  | body (l l' : LocalRequest) (hphase : f.phase = .reading frame.requestId) (hkind : frame.kind = .requestBody)
      (hlocal : f.locals frame.requestId = some l)
      (h : l.rx = true → l.tx = true → l' = { l with channel := l.channel ++ [frame.body] })
      (hgone : l.rx = false ∨ l.tx = false → l' = { l with tx := false }) :
      Takes f frame ((f.accept frame.requestId frame).setLocal frame.requestId l')
  | ends (l : LocalRequest) (hphase : f.phase = .reading frame.requestId) (hkind : frame.kind = .requestEnd)
      (hlocal : f.locals frame.requestId = some l) :
      Takes f frame { (f.accept frame.requestId frame).setLocal frame.requestId { l with tx := false } with
        phase := .waiting frame.requestId }
  | cancelled (l : LocalRequest) (hphase : f.phase = .reading frame.requestId) (hkind : frame.kind = .error)
      (hlocal : f.locals frame.requestId = some l) :
      Takes f frame { (f.accept frame.requestId frame).setLocal frame.requestId { l with rx := false } with phase := .idle }
  | drains (hphase : f.phase = .draining frame.requestId) (hkind : frame.kind = .requestBody) :
      Takes f frame (f.accept frame.requestId frame)
  | drained (hphase : f.phase = .draining frame.requestId) (hkind : frame.kind = .requestEnd ∨ frame.kind = .error) :
      Takes f frame { f.accept frame.requestId frame with phase := .idle }

theorem abortLocal_locals {l' : LocalRequest} {r1 : ℕ} (h : (f.abortLocal r).locals r1 = some l') :
    ∃ l, f.locals r1 = some l ∧ (l' = l ∨ l' = { l with rx := false }) := by
  unfold abortLocal at h
  cases hl : f.locals r with
  | none =>
    simp only [hl] at h
    exact ⟨l', h, .inl rfl⟩
  | some l =>
    simp only [hl, setLocal] at h
    by_cases hid : r1 = r
    · subst hid
      obtain rfl : _ = l' := by simpa using h
      exact ⟨l, hl, .inr rfl⟩
    · exact ⟨l', by simpa [hid] using h, .inl rfl⟩

theorem abortLocal_accepted : (f.abortLocal r).accepted = f.accepted := by
  unfold abortLocal
  split <;> rfl

theorem abortLocal_outbox : (f.abortLocal r).outbox = f.outbox := by
  unfold abortLocal
  split <;> rfl

theorem abortLocal_sent : (f.abortLocal r).sent = f.sent := by
  unfold abortLocal
  split <;> rfl

theorem errorResponse_ids {status : ℕ} {body : List UInt8} {g : Frame} (h : g ∈ errorResponseFrames r status body) :
    g.requestId = r := by
  simp only [errorResponseFrames, bodyChunkFrames, mem_cons, mem_append, List.mem_map, not_mem_nil, or_false] at h
  rcases h with rfl | ⟨chunk, -, rfl⟩ | rfl <;> rfl

theorem takes_stop (exit : LaneExit) : Takes f frame (f.stop exit) :=
  .stops _ rfl rfl (fun _ l' h => ⟨l', h, .inl rfl⟩) rfl rfl

theorem takes_abort_stop (exit : LaneExit) : Takes f frame ((f.abortLocal r).stop exit) :=
  .stops _ rfl abortLocal_accepted (fun _ _ h => abortLocal_locals h) abortLocal_outbox abortLocal_sent

theorem takeStart_takes (hidle : f.phase = .idle) (hkind : frame.kind = .requestStart) :
    Takes f frame (f.takeStart isAllowedTunnelTarget validMethod frame) := by
  unfold takeStart
  split
  · exact takes_stop _
  · exact takes_stop _
  · split_ifs
    · exact .refuses hidle hkind
    · exact takes_stop _
    · exact .starts hidle hkind

theorem takeBody_takes (hphase : f.phase = .reading r) (h : f.takeBody r frame = some f') : Takes f frame f' := by
  unfold takeBody at h
  by_cases hid : frame.requestId = r
  swap
  · rw [if_pos hid] at h
    cases h
    exact takes_abort_stop _
  rw [if_neg (not_not.mpr hid)] at h
  subst hid
  split at h
  · rename_i l hkind hlocal
    split_ifs at h with hgone htx hroom
    · cases h
      exact .body l _ hphase hkind hlocal (fun hrx => by simp [hrx] at hgone) fun _ => rfl
    · cases h
      have hrx : l.rx = true := by simpa [htx] using hgone
      exact .body l _ hphase hkind hlocal (fun _ _ => rfl) fun h => by simp [hrx, htx] at h
    · cases h
      have hsame : f.accept frame.requestId frame = (f.accept frame.requestId frame).setLocal frame.requestId l := by
        simp [setLocal, accept, ← hlocal]
      rw [hsame]
      refine .body l l hphase hkind hlocal (fun _ h => absurd h htx) fun _ => ?_
      have htx' : l.tx = false := by simpa using htx
      rw [← htx']
  · rename_i l hkind hlocal
    cases h
    exact .ends l hphase hkind hlocal
  · rename_i l hkind hlocal
    cases h
    have hset : (f.accept frame.requestId frame).abortLocal frame.requestId =
        (f.accept frame.requestId frame).setLocal frame.requestId { l with rx := false } := by
      have hl : (f.accept frame.requestId frame).locals frame.requestId = some l := hlocal
      simp [abortLocal, hl]
    rw [hset]
    exact .cancelled l hphase hkind hlocal
  · cases h
    exact takes_abort_stop _

theorem take_takes (h : f.take isAllowedTunnelTarget validMethod frame = some f') : Takes f frame f' := by
  unfold Follower.take at h
  split at h
  · rename_i hidle
    split_ifs at h with hkind
    · cases h
      exact takeStart_takes hidle hkind
    · cases h
      exact takes_stop _
  · rename_i r hphase
    exact takeBody_takes hphase h
  · cases h
    exact takes_abort_stop _
  · cases h
    exact takes_stop _
  · rename_i r hphase
    cases h
    unfold takeDrained
    by_cases hid : frame.requestId = r
    · subst hid
      rw [if_neg (by simp)]
      split
      · rename_i hkind
        exact .drained hphase (.inl hkind)
      · rename_i hkind
        exact .drained hphase (.inr hkind)
      · rename_i hkind
        exact .drains hphase hkind
      · exact takes_stop _
    · rw [if_pos hid]
      exact takes_stop _
  · simp at h

end Take

/-! ### The frames on their way -/

/-- The follower is still on the lane: what it has accepted of a request, what is on the connection and what is in the
request channel are what the primary has queued, up to the frames that went with the channel. -/
structure Wired (s : Lane) : Prop where
  accepted : ∀ r, s.follower.accepted r <+: s.primary.sentOf r
  inTransit : s.follower.phase.isStopped = false → ∀ r, ∃ lost, s.primary.sentOf r =
      s.follower.accepted r ++ framesOf r s.down ++ framesOf r s.primary.requestQueue ++ lost ∧
    (s.primary.status ≠ .closed → lost = [])

namespace Wired

variable {s : Lane} {primary : Primary} {follower : Follower}

theorem queued (hw : Wired s) (h : Queued s.primary primary) : Wired { s with primary } := by
  obtain ⟨hstatus, hframes⟩ := h
  refine ⟨fun r => ?_, fun hphase r => ?_⟩
  · obtain ⟨frames, hsent, -⟩ := hframes r
    rw [hsent]
    exact (hw.accepted r).trans (prefix_append _ _)
  · obtain ⟨frames, hsent, hqueue, hclosed⟩ := hframes r
    obtain ⟨lost, heq, hlost⟩ := hw.inTransit hphase r
    by_cases hopen : s.primary.status = .closed
    · refine ⟨lost, ?_, fun h => absurd (hstatus.mpr hopen) h⟩
      simp [hsent, hqueue, hclosed hopen, heq]
    · refine ⟨[], ?_, fun _ => rfl⟩
      simp [hsent, hqueue, heq, hlost hopen]

theorem dropQueue (hw : Wired s) (hsent : ∀ r, primary.sentOf r = s.primary.sentOf r)
    (hqueue : primary.requestQueue = []) (hstatus : primary.status = .closed) : Wired { s with primary } := by
  refine ⟨fun r => (hsent r).symm ▸ hw.accepted r, fun hphase r => ?_⟩
  obtain ⟨lost, heq, -⟩ := hw.inTransit hphase r
  refine ⟨framesOf r s.primary.requestQueue ++ lost, ?_, fun h => absurd hstatus h⟩
  simp [hsent, hqueue, heq]

theorem forward {frame : Frame} {rest : List Frame} (hw : Wired s) (hqueue : s.primary.requestQueue = frame :: rest)
    (hstatus : primary.status = s.primary.status) (hsent : ∀ r, primary.sentOf r = s.primary.sentOf r)
    (hrest : primary.requestQueue = rest) : Wired { s with primary, down := s.down ++ [frame] } := by
  refine ⟨fun r => (hsent r).symm ▸ hw.accepted r, fun hphase r => ?_⟩
  obtain ⟨lost, heq, hlost⟩ := hw.inTransit hphase r
  refine ⟨lost, ?_, fun h => hlost (hstatus ▸ h)⟩
  by_cases hid : frame.requestId = r
  all_goals simp [hsent, hrest, heq, hqueue, framesOf_cons, hid]

theorem accept {frame : Frame} {down : List Frame} (hw : Wired s) (hdown : s.down = frame :: down)
    (hphase : s.follower.phase.isStopped = false)
    (haccepted : follower.accepted =
      Function.update s.follower.accepted frame.requestId (s.follower.accepted frame.requestId ++ [frame])) :
    Wired { s with follower, down } := by
  have hmove : ∀ r, follower.accepted r ++ framesOf r down = s.follower.accepted r ++ framesOf r s.down := by
    intro r
    by_cases hid : r = frame.requestId
    · subst hid
      simp [haccepted, hdown, framesOf_cons]
    · simp [haccepted, hdown, framesOf_cons, hid, Ne.symm hid]
  refine ⟨fun r => ?_, fun _ r => ?_⟩
  · obtain ⟨lost, heq, -⟩ := hw.inTransit hphase r
    refine ⟨framesOf r down ++ framesOf r s.primary.requestQueue ++ lost, ?_⟩
    rw [heq, ← hmove r]
    simp
  · obtain ⟨lost, heq, hlost⟩ := hw.inTransit hphase r
    exact ⟨lost, by rw [heq, ← hmove r], hlost⟩

theorem stops {down : List Frame} (hw : Wired s) (hphase : follower.phase.isStopped = true)
    (haccepted : follower.accepted = s.follower.accepted) : Wired { s with follower, down } := by
  refine ⟨fun r => ?_, fun h => ?_⟩
  · change follower.accepted r <+: _
    rw [haccepted]
    exact hw.accepted r
  · change follower.phase.isStopped = false at h
    simp [hphase] at h

theorem congr {up : List Frame} (hw : Wired s) (haccepted : follower.accepted = s.follower.accepted)
    (hphase : s.follower.phase.isStopped = true → follower.phase.isStopped = true) :
    Wired { s with follower, up } := by
  refine ⟨fun r => ?_, fun h r => ?_⟩
  · change follower.accepted r <+: _
    rw [haccepted]
    exact hw.accepted r
  · have hrun : s.follower.phase.isStopped = false := by
      by_contra hstop
      simp_all
    obtain ⟨lost, heq, hlost⟩ := hw.inTransit hrun r
    exact ⟨lost, by simpa [haccepted] using heq, hlost⟩

end Wired

/-! ### The local request -/

/-- What the local request has seen, against what the follower has accepted. -/
structure Reads (phase : ServePhase) (r : ℕ) (l : LocalRequest) (accepted : List Frame) : Prop where
  bytes : l.rx = true → payload .requestBody accepted = l.seen ++ l.channel.flatten
  reading : l.rx = true → phase = .reading r → l.tx = true
  closed : l.rx = true → l.tx = false → hasKind .requestEnd accepted
  ended : l.ended = true → l.rx = false ∧ l.seen = payload .requestBody accepted ∧ hasKind .requestEnd accepted

/-- The invariant of the follower. -/
structure Serves (f : Follower) : Prop where
  reads : ∀ r l, f.locals r = some l → Reads f.phase r l (f.accepted r)
  first : ∀ r, f.accepted r ≠ [] → hasKind .requestStart (f.accepted r)
  started : ∀ r, f.locals r ≠ none → f.accepted r ≠ []
  unended : ∀ r, f.phase = .reading r → ¬ hasKind .requestEnd (f.accepted r)
  draining : ∀ r, f.phase = .draining r → f.locals r = none ∧ f.accepted r ≠ []

namespace Serves

variable {f f' : Follower} {frame : Frame} {r : ℕ} {l l' : LocalRequest}

theorem not_ended (hf : Serves f) (hphase : f.phase = .reading r) (hlocal : f.locals r = some l) : l.ended = false := by
  by_contra hended
  exact hf.unended r hphase ((hf.reads r l hlocal).ended (by simpa using hended)).2.2

variable {phase : ServePhase}

theorem accept (hf : Serves f) (hlocal : f.locals frame.requestId = some l)
    (hreads : Reads phase frame.requestId l' (f.accepted frame.requestId ++ [frame]))
    (hphase : ∀ r, phase = .reading r → r = frame.requestId ∧ frame.kind ≠ .requestEnd ∧ f.phase = .reading r)
    (hdraining : ∀ r, phase ≠ .draining r) :
    Serves { (f.accept frame.requestId frame).setLocal frame.requestId l' with phase } := by
  refine ⟨fun r1 l1 h1 => ?_, fun r1 h1 => ?_, fun r1 h1 => ?_, fun r1 h1 => ?_, fun r1 h1 => absurd h1 (hdraining r1)⟩
  · by_cases hid : r1 = frame.requestId
    · subst hid
      obtain rfl : l' = l1 := by simpa [setLocal] using h1
      simpa [Follower.setLocal, Follower.accept] using hreads
    · have hold : f.locals r1 = some l1 := by simpa [Follower.setLocal, Follower.accept, hid] using h1
      have hr := hf.reads r1 l1 hold
      have hsame : ((f.accept frame.requestId frame).setLocal frame.requestId l').accepted r1 = f.accepted r1 := by
        simp [Follower.setLocal, Follower.accept, hid]
      rw [hsame]
      exact ⟨hr.bytes, fun _ h => absurd (hphase r1 h).1 hid, hr.closed, hr.ended⟩
  · by_cases hid : r1 = frame.requestId
    · subst hid
      have hold := hf.first frame.requestId (hf.started frame.requestId (by simp [hlocal]))
      simpa [Follower.setLocal, Follower.accept] using hasKind_append.mpr (.inl hold)
    · have hsame : f.accepted r1 ≠ [] := by simpa [Follower.setLocal, Follower.accept, hid] using h1
      simpa [Follower.setLocal, Follower.accept, hid] using hf.first r1 hsame
  · by_cases hid : r1 = frame.requestId
    · subst hid
      simp [Follower.setLocal, Follower.accept]
    · have hsame : f.locals r1 ≠ none := by simpa [Follower.setLocal, Follower.accept, hid] using h1
      simpa [Follower.setLocal, Follower.accept, hid] using hf.started r1 hsame
  · obtain ⟨rfl, hkind, hold⟩ := hphase r1 h1
    have hnone := hf.unended _ hold
    simp only [Follower.setLocal, Follower.accept, update_self, hasKind_append]
    rintro (h | ⟨e, he, hend⟩)
    · exact hnone h
    · exact hkind (mem_singleton.mp he ▸ hend)

theorem begins {outbox : List Frame} (hf : Serves f) (hkind : frame.kind = .requestStart)
    (hnew : f.accepted frame.requestId = []) (locals : ℕ → Option LocalRequest)
    (hother : ∀ r, r ≠ frame.requestId → locals r = f.locals r)
    (hown : locals frame.requestId = none ∧ phase = .draining frame.requestId ∨
      locals frame.requestId = some {} ∧ phase = .reading frame.requestId) :
    Serves { f.accept frame.requestId frame with phase, outbox, locals } := by
  have hphase : ∀ r, phase = .reading r ∨ phase = .draining r → r = frame.requestId := by
    rintro r (h | h)
    · rcases hown with ⟨-, hp⟩ | ⟨-, hp⟩
      · simp [hp] at h
      · simpa [hp] using h.symm
    · rcases hown with ⟨-, hp⟩ | ⟨-, hp⟩
      · simpa [hp] using h.symm
      · simp [hp] at h
  have haccepted : ∀ r, r ≠ frame.requestId → (f.accept frame.requestId frame).accepted r = f.accepted r := by
    intro r hid
    simp [Follower.accept, hid]
  have hfirst : (f.accept frame.requestId frame).accepted frame.requestId = [frame] := by
    simp [Follower.accept, hnew]
  refine ⟨fun r1 l1 h1 => ?_, fun r1 h1 => ?_, fun r1 h1 => ?_, fun r1 h1 => ?_, fun r1 h1 => ?_⟩
  · change Reads phase r1 l1 ((f.accept frame.requestId frame).accepted r1)
    by_cases hid : r1 = frame.requestId
    · subst hid
      have hl : locals frame.requestId = some l1 := h1
      rcases hown with ⟨hnone, -⟩ | ⟨hsome, -⟩
      · simp [hnone] at hl
      · obtain rfl : _ = l1 := some.inj (hsome.symm.trans hl)
        rw [hfirst]
        exact ⟨fun _ => by simp [hkind], fun _ _ => rfl, fun _ h => by simp at h, fun h => by simp at h⟩
    · rw [haccepted r1 hid]
      have hr := hf.reads r1 l1 ((hother r1 hid).symm.trans h1)
      exact ⟨hr.bytes, fun _ h => absurd (hphase r1 (.inl h)) hid, hr.closed, hr.ended⟩
  · change hasKind _ ((f.accept frame.requestId frame).accepted r1)
    by_cases hid : r1 = frame.requestId
    · subst hid
      rw [hfirst]
      exact ⟨frame, by simp, hkind⟩
    · rw [haccepted r1 hid]
      exact hf.first r1 (haccepted r1 hid ▸ h1)
  · change (f.accept frame.requestId frame).accepted r1 ≠ []
    by_cases hid : r1 = frame.requestId
    · subst hid
      simp [hfirst]
    · rw [haccepted r1 hid]
      exact hf.started r1 (hother r1 hid ▸ h1)
  · obtain rfl := hphase r1 (.inl h1)
    rw [hfirst]
    simp [hasKind, hkind]
  · obtain rfl := hphase r1 (.inr h1)
    rcases hown with ⟨hnone, -⟩ | ⟨-, hp⟩
    · exact ⟨hnone, fun h => by simp [hfirst] at h⟩
    · have hdrain : phase = .draining frame.requestId := h1
      simp [hp] at hdrain

theorem drains (hf : Serves f) (hdraining : f.phase = .draining frame.requestId)
    (hphase : phase = .draining frame.requestId ∨ phase = .idle) :
    Serves { f.accept frame.requestId frame with phase } := by
  obtain ⟨hnone, hnonempty⟩ := hf.draining _ hdraining
  have hreading : ∀ r, phase ≠ .reading r := by
    rintro r rfl
    simp at hphase
  have haccepted : ∀ r, r ≠ frame.requestId → (f.accept frame.requestId frame).accepted r = f.accepted r := by
    intro r hid
    simp [Follower.accept, hid]
  have hown : (f.accept frame.requestId frame).accepted frame.requestId = f.accepted frame.requestId ++ [frame] := by
    simp [Follower.accept]
  refine ⟨fun r1 l1 h1 => ?_, fun r1 h1 => ?_, fun r1 h1 => ?_, fun r1 h1 => absurd h1 (hreading r1), fun r1 h1 => ?_⟩
  · have hid : r1 ≠ frame.requestId := by
      rintro rfl
      have hsome : f.locals frame.requestId = some l1 := h1
      simp [hnone] at hsome
    have hr := hf.reads r1 l1 h1
    rw [haccepted r1 hid]
    exact ⟨hr.bytes, fun _ h => absurd h (hreading r1), hr.closed, hr.ended⟩
  · change hasKind _ ((f.accept frame.requestId frame).accepted r1)
    by_cases hid : r1 = frame.requestId
    · subst hid
      rw [hown]
      exact hasKind_append.mpr (.inl (hf.first _ hnonempty))
    · rw [haccepted r1 hid]
      exact hf.first r1 (haccepted r1 hid ▸ h1)
  · change (f.accept frame.requestId frame).accepted r1 ≠ []
    by_cases hid : r1 = frame.requestId
    · subst hid
      simp [hown]
    · rw [haccepted r1 hid]
      exact hf.started r1 h1
  · have hp : phase = .draining r1 := h1
    obtain rfl : r1 = frame.requestId := by
      rcases hphase with h | h
      · simpa [h] using hp.symm
      · simp [h] at hp
    refine ⟨hnone, ?_⟩
    simp [hown]

/-- The follower stops, or its local request is aborted, or both: nothing more is accepted. -/
theorem stops (hf : Serves f) (hphase : ∀ r, f'.phase ≠ .reading r ∧ f'.phase ≠ .draining r)
    (haccepted : f'.accepted = f.accepted)
    (hlocals : ∀ r l', f'.locals r = some l' → ∃ l, f.locals r = some l ∧ (l' = l ∨ l' = { l with rx := false })) :
    Serves f' := by
  refine ⟨fun r1 l1 h1 => ?_, fun r1 h1 => ?_, fun r1 h1 => ?_, fun r1 h1 => absurd h1 (hphase r1).1,
    fun r1 h1 => absurd h1 (hphase r1).2⟩
  · obtain ⟨l, hl, hsame⟩ := hlocals r1 l1 h1
    have hr := hf.reads r1 l hl
    rw [haccepted]
    rcases hsame with rfl | rfl
    · exact ⟨hr.bytes, fun _ h => absurd h (hphase r1).1, hr.closed, hr.ended⟩
    · exact ⟨fun h => by simp at h, fun _ h => absurd h (hphase r1).1, fun h => by simp at h,
        fun h => ⟨rfl, (hr.ended h).2⟩⟩
  · rw [haccepted] at h1 ⊢
    exact hf.first r1 h1
  · rw [haccepted]
    obtain ⟨l1, hl1⟩ := ne_none_iff_exists'.mp h1
    obtain ⟨l, hl, -⟩ := hlocals r1 l1 hl1
    exact hf.started r1 (by simp [hl])

theorem takes (hf : Serves f) (h : Takes f frame f')
    (hnew : frame.kind = .requestStart → f.accepted frame.requestId = []) : Serves f' := by
  cases h with
  | stops f' hphase haccepted hlocals =>
    refine hf.stops (fun r => ⟨?_, ?_⟩) haccepted hlocals
    all_goals
      intro h
      simp [h, isStopped] at hphase
  | starts hidle hkind =>
    exact hf.begins hkind (hnew hkind) (Function.update f.locals frame.requestId (some {}))
      (fun r hid => by simp [hid]) (.inr ⟨by simp, rfl⟩)
  | refuses hidle hkind =>
    have hnone : f.locals frame.requestId = none := by
      by_contra h
      exact hf.started _ h (hnew hkind)
    exact hf.begins hkind (hnew hkind) f.locals (fun _ _ => rfl) (.inl ⟨hnone, rfl⟩)
  | body l l' hphase hkind hlocal hgrows hgone =>
    have hr := hf.reads _ l hlocal
    have hended := hf.not_ended hphase hlocal
    refine hf.accept hlocal ?_ (fun r h => ⟨?_, by simp [hkind], h⟩) fun r h => ?_
    · by_cases hrx : l.rx = true
      · have htx := hr.reading hrx hphase
        obtain rfl := hgrows hrx htx
        exact ⟨fun _ => by simp [hr.bytes hrx, hkind], fun _ _ => htx, fun _ h => by simp [htx] at h,
          fun h => by simp [hended] at h⟩
      · obtain rfl := hgone (.inl (by simpa using hrx))
        exact ⟨fun h => absurd h hrx, fun h => absurd h hrx, fun h => absurd h hrx, fun h => by simp [hended] at h⟩
    · simpa [hphase, Follower.setLocal, Follower.accept] using h.symm
    · simp [Follower.accept, hphase] at h
  | ends l hphase hkind hlocal =>
    have hr := hf.reads _ l hlocal
    have hended := hf.not_ended hphase hlocal
    refine hf.accept hlocal ⟨fun h => ?_, fun _ h => by simp at h, fun _ _ => ?_, fun h => ?_⟩ (by simp) (by simp)
    · simpa [hkind] using hr.bytes h
    · exact hasKind_append.mpr (.inr ⟨frame, by simp, hkind⟩)
    · simp [hended] at h
  | cancelled l hphase hkind hlocal =>
    have hended := hf.not_ended hphase hlocal
    refine hf.accept hlocal ⟨fun h => ?_, fun h => ?_, fun h => ?_, fun h => ?_⟩ (by simp) (by simp)
    · simp at h
    · simp at h
    · simp at h
    · simp [hended] at h
  | drains hphase hkind => exact hf.drains hphase (.inl hphase)
  | drained hphase hkind => exact hf.drains hphase (.inr rfl)

theorem local_moves (hf : Serves f) (hlocal : f.locals r = some l)
    (hreads : ∀ accepted, Reads f.phase r l accepted → Reads f.phase r l' accepted) : Serves (f.setLocal r l') := by
  refine ⟨fun r1 l1 h1 => ?_, hf.first, fun r1 h1 => ?_, hf.unended, fun r1 h1 => ?_⟩
  · by_cases hid : r1 = r
    · subst hid
      obtain rfl : l' = l1 := by simpa [setLocal] using h1
      exact hreads _ (hf.reads r1 l hlocal)
    · exact hf.reads r1 l1 (by simpa [setLocal, hid] using h1)
  · by_cases hid : r1 = r
    · subst hid
      exact hf.started r1 (by simp [hlocal])
    · exact hf.started r1 (by simpa [setLocal, hid] using h1)
  · have hid : r1 ≠ r := by
      rintro rfl
      simp [(hf.draining r1 h1).1] at hlocal
    exact ⟨by simpa [setLocal, hid] using (hf.draining r1 h1).1, (hf.draining r1 h1).2⟩

theorem phase_moves {outbox : List Frame} (hf : Serves f)
    (hphase : ∀ r, phase ≠ .reading r ∧ phase ≠ .draining r) : Serves { f with phase, outbox } :=
  hf.stops hphase rfl fun _ l h => ⟨l, h, .inl rfl⟩

theorem act {validHeader : String × String → Bool} {a : FollowerAct} (hf : Serves f)
    (h : f.act validHeader a = some f') : Serves f' := by
  cases a with simp only [Follower.act] at h
  | localResponse status headers contentLength =>
    split at h
    · obtain ⟨-, h⟩ := ite_none_right_eq_some.mp h
      cases h
      exact hf.phase_moves (by simp)
    · simp at h
  | localFailure message | localEnd =>
    split at h
    · cases h
      exact hf.phase_moves (by simp)
    · simp at h
  | localChunk bytes =>
    split at h
    · cases h
      exact ⟨hf.reads, hf.first, hf.started, hf.unended, hf.draining⟩
    · simp at h
  | localError message =>
    split at h
    · cases h
      exact hf.stops (by simp [stop]) rfl fun _ l h => ⟨l, h, .inl rfl⟩
    · simp at h
  | leave =>
    split at h
    · cases h
      exact hf.stops (by simp [stop]) abortLocal_accepted fun _ _ h => abortLocal_locals h
    · simp at h
    · cases h
      exact hf.stops (by simp [stop]) rfl fun _ l h => ⟨l, h, .inl rfl⟩
  | readLocal r =>
    split at h
    · rename_i chunk rest tx seen ended hlocal
      cases h
      refine hf.local_moves hlocal fun accepted hr => ⟨fun _ => ?_, hr.reading, hr.closed, fun hended => ?_⟩
      · simpa using hr.bytes rfl
      · simpa using (hr.ended hended).1
    · simp at h
  | endLocal r =>
    split at h
    · rename_i seen ended hlocal
      cases h
      refine hf.local_moves hlocal fun accepted hr =>
        ⟨fun h => by simp at h, fun h => by simp at h, fun h => by simp at h, fun _ => ⟨rfl, ?_, hr.closed rfl rfl⟩⟩
      simpa using (hr.bytes rfl).symm
    · simp at h
  | dropLocal r =>
    split at h
    · rename_i l hlocal
      cases h
      exact hf.local_moves hlocal fun accepted hr =>
        ⟨fun h => by simp at h, fun h => by simp at h, fun h => by simp at h, fun h => ⟨rfl, (hr.ended h).2⟩⟩
    · simp at h

end Serves

/-- What a step of the follower that takes no frame leaves alone, and what it writes. -/
structure Kept (f f' : Follower) : Prop where
  accepted : f'.accepted = f.accepted
  sent : f'.sent = f.sent
  stopped : f.phase.isStopped = true → f'.phase.isStopped = true
  request : ∀ r, f'.phase.request = some r → f.phase.request = some r
  writes : ∀ g ∈ f'.outbox, g ∈ f.outbox ∨ f.phase.request = some g.requestId

variable {validHeader : String × String → Bool}

theorem act_keeps {f f' : Follower} {a : FollowerAct} (h : f.act validHeader a = some f') : Kept f f' := by
  cases a with simp only [act] at h
  | localResponse status headers contentLength =>
    split at h
    · rename_i r hphase _
      obtain ⟨-, h⟩ := ite_none_right_eq_some.mp h
      cases h
      exact ⟨rfl, rfl, fun hstop => by simp [hphase, isStopped] at hstop, fun r h => by simpa [hphase, request] using h,
        fun g hg => .inr (by simp [hphase, request, mem_singleton.mp hg])⟩
    · simp at h
  | localFailure message =>
    split at h
    · rename_i r hphase _
      cases h
      exact ⟨rfl, rfl, fun hstop => by simp [hphase, isStopped] at hstop, fun r h => by simp [request] at h,
        fun g hg => .inr (by simp [hphase, request, mem_singleton.mp hg, Frame.ofError])⟩
    · simp at h
  | localChunk bytes =>
    split at h
    · rename_i r hphase _
      cases h
      refine ⟨rfl, rfl, id, fun r h => h, fun g hg => .inr ?_⟩
      obtain ⟨chunk, -, rfl⟩ := List.mem_map.mp hg
      simp [hphase, request, Frame.responseBody]
    · simp at h
  | localEnd =>
    split at h
    · rename_i r hphase _
      cases h
      exact ⟨rfl, rfl, fun hstop => by simp [hphase, isStopped] at hstop, fun r h => by simp [request] at h,
        fun g hg => .inr (by simp [hphase, request, mem_singleton.mp hg, Frame.responseEnd])⟩
    · simp at h
  | localError message =>
    split at h
    · cases h
      exact ⟨rfl, rfl, fun _ => rfl, fun r h => by simp [stop, request] at h, fun _ => .inl⟩
    · simp at h
  | leave =>
    split at h
    · cases h
      exact ⟨abortLocal_accepted, abortLocal_sent, fun _ => rfl, fun r h => by simp [stop, request] at h,
        fun g hg => .inl (by rwa [stop, abortLocal_outbox] at hg)⟩
    · simp at h
    · cases h
      exact ⟨rfl, rfl, fun _ => rfl, fun r h => by simp [stop, request] at h, fun _ => .inl⟩
  | readLocal r | endLocal r | dropLocal r =>
    split at h
    · cases h
      exact ⟨rfl, rfl, id, fun _ => id, fun _ => .inl⟩
    · simp at h

/-! ### Whole runs -/

/-- The invariant over the whole way. -/
structure Carried (s : Lane) : Prop where
  known : Known s.primary
  aborts : AbortsStarted s.primary
  uploaded : ∀ r req, s.primary.requests r = some req → Uploaded r req
  wired : Wired s
  serves : Serves s.follower

namespace Carried

variable {validHeader : String × String → Bool} {isAllowedTunnelTarget validMethod : String → Bool}
variable {s s' : Lane} {a : LaneAct} {b : PrimaryAct} {primary : Primary}

theorem primary_step (hs : Carried s) (h : primaryStep validHeader s.primary b = some primary) :
    Known primary ∧ AbortsStarted primary ∧ ∀ r req, primary.requests r = some req → Uploaded r req := by
  refine ⟨hs.known.step h, hs.aborts.step hs.known h, fun r req hreq => ?_⟩
  rcases upload_step h hs.aborts hreq with ⟨req1, h1, hstart, hstep⟩ | hbegan
  · exact (hs.uploaded r req1 h1).step hstart hstep
  · exact .began hbegan

theorem queued (hs : Carried s) (h : primaryStep validHeader s.primary b = some primary) (hforward : b ≠ .forward)
    (hdrop : b ≠ .dropQueue) : Queued s.primary primary :=
  queue_step h (fun r req hreq => (hs.uploaded r req hreq).start.2) (hs.known.fresh _ (Nat.le_refl _)) hforward hdrop

theorem start_is_new {frame : Frame} {down : List Frame} (hs : Carried s) (hdown : s.down = frame :: down)
    (hphase : s.follower.phase.isStopped = false) (hkind : frame.kind = .requestStart) :
    s.follower.accepted frame.requestId = [] := by
  by_contra hne
  obtain ⟨f, hf, hstart⟩ := hs.serves.first _ hne
  obtain ⟨lost, hsent, -⟩ := hs.wired.inTransit hphase frame.requestId
  rw [hdown, framesOf_cons, if_pos rfl] at hsent
  -- so there is such a request, and its frames are in order
  cases hreq : s.primary.requests frame.requestId with
  | none => simp [Primary.sentOf, hreq] at hsent
  | some req =>
    rw [sentOf_of_requests hreq] at hsent
    have horder := (hs.uploaded _ req hreq).inOrder
    rw [hsent, InOrder, append_assoc, append_assoc] at horder
    exact ((pairwise_append.mp horder).2.2 f hf frame (by simp)).1 hstart hkind

/-- **Step lemma.** -/
theorem step (hs : Carried s) (h : laneStep validHeader isAllowedTunnelTarget validMethod s a = some s') :
    Carried s' := by
  cases a with simp only [laneStep] at h
  | primary b =>
    obtain ⟨hinner, h⟩ := ite_none_right_eq_some.mp h
    obtain ⟨primary, hstep, rfl⟩ := map_eq_some_iff.mp h
    obtain ⟨hknown, haborts, huploaded⟩ := hs.primary_step hstep
    refine ⟨hknown, haborts, huploaded, ?_, hs.serves⟩
    by_cases hdrop : b = .dropQueue
    · subst hdrop
      simp only [primaryStep, ite_none_right_eq_some, some.injEq] at hstep
      obtain ⟨-, rfl⟩ := hstep
      exact hs.wired.dropQueue (fun _ => rfl) rfl rfl
    · refine hs.wired.queued (hs.queued hstep ?_ hdrop)
      rintro rfl
      simp [PrimaryAct.isInner] at hinner
  | forward =>
    split at h
    · simp at h
    · rename_i frame rest hqueue
      obtain ⟨primary, hstep, rfl⟩ := map_eq_some_iff.mp h
      obtain ⟨hknown, haborts, huploaded⟩ := hs.primary_step hstep
      refine ⟨hknown, haborts, huploaded, ?_, hs.serves⟩
      simp only [primaryStep, ite_none_right_eq_some, some.injEq] at hstep
      obtain ⟨-, rfl⟩ := hstep
      exact hs.wired.forward hqueue rfl (fun _ => rfl) (by simp [hqueue])
  | receive =>
    split at h
    · simp at h
    · rename_i frame up hup
      obtain ⟨primary, hstep, rfl⟩ := map_eq_some_iff.mp h
      obtain ⟨hknown, haborts, huploaded⟩ := hs.primary_step hstep
      have hwired := hs.wired.queued (hs.queued hstep (by simp) (by simp))
      exact ⟨hknown, haborts, huploaded, ⟨hwired.accepted, hwired.inTransit⟩, hs.serves⟩
  | flush =>
    split at h
    · simp at h
    · split at h
      · simp at h
      · cases h
        exact ⟨hs.known, hs.aborts, hs.uploaded, hs.wired.congr rfl id,
          ⟨hs.serves.reads, hs.serves.first, hs.serves.started, hs.serves.unended, hs.serves.draining⟩⟩
  | take =>
    split at h
    · rename_i frame down hdown houtbox
      obtain ⟨follower, htake, rfl⟩ := map_eq_some_iff.mp h
      have hphase : s.follower.phase.isStopped = false := by
        by_contra hstop
        unfold Follower.take at htake
        split at htake <;> simp_all [isStopped]
      have htakes := take_takes htake
      refine ⟨hs.known, hs.aborts, hs.uploaded, ?_, hs.serves.takes htakes fun hkind => hs.start_is_new hdown hphase hkind⟩
      cases htakes with
      | stops f' hstop haccepted => exact hs.wired.stops hstop haccepted
      | starts | refuses | body | ends | cancelled | drains | drained => exact hs.wired.accept hdown hphase rfl
    · simp at h
  | follower b =>
    obtain ⟨follower, hact, rfl⟩ := map_eq_some_iff.mp h
    refine ⟨hs.known, hs.aborts, hs.uploaded, hs.wired.congr (act_keeps hact).accepted (act_keeps hact).stopped, hs.serves.act hact⟩

end Carried

variable {isAllowedTunnelTarget validMethod : String → Bool} {s : Lane}

theorem carried_of_reach
    {G : Lane → LaneAct → Prop} (h : (lane validHeader isAllowedTunnelTarget validMethod).Reach G {} s) :
    Carried s := by
  refine h.induct ?_ fun hs _ hstep => hs.step hstep
  refine ⟨⟨by simp, fun _ => rfl, by simp⟩, by simp [AbortsStarted], by simp, ⟨fun r => ?_, fun _ r => ⟨[], ?_, fun _ => rfl⟩⟩,
    ⟨by simp, by simp, by simp, by simp, by simp⟩⟩
  · exact nil_prefix
  · simp [Primary.sentOf]

/-- The payload bridge meets no error. -/
def PayloadSound (_ : Lane) (a : LaneAct) : Prop := ∀ r, a ≠ .primary (.bridge r .fail)

instance (s : Lane) (a : LaneAct) : Decidable (PayloadSound s a) :=
  match a with
  | .primary (.bridge r .fail) => isFalse fun h => h r rfl
  | .primary (.bridge _ (.chunk _)) | .primary (.bridge _ .finish) | .primary (.bridge _ .disconnect)
  | .primary (.beginSend ..) | .primary (.queueStart _) | .primary (.sendBody ..) | .primary (.reportBody _)
  | .primary (.takeStart _) | .primary (.timeoutStart _) | .primary (.cancelSend _) | .primary (.read _)
  | .primary (.dropReader _) | .primary (.sendAbort _) | .primary .forward | .primary (.receive _)
  | .primary .deliver | .primary .stopLoop | .primary .unregister | .primary .dropQueue
  | .forward | .receive | .flush | .take | .follower _ => isTrue fun r h => by simp at h

theorem laneStep_primary {s' : Lane}
    {a : LaneAct} (h : laneStep validHeader isAllowedTunnelTarget validMethod s a = some s') :
    s'.primary = s.primary ∨ ∃ b, (∀ r, b = .bridge r .fail → a = .primary (.bridge r .fail)) ∧
      primaryStep validHeader s.primary b = some s'.primary := by
  cases a with simp only [laneStep] at h
  | primary b =>
    obtain ⟨-, h⟩ := ite_none_right_eq_some.mp h
    obtain ⟨primary, hstep, rfl⟩ := map_eq_some_iff.mp h
    exact .inr ⟨b, fun r hb => by rw [hb], hstep⟩
  | forward =>
    split at h
    · simp at h
    · obtain ⟨primary, hstep, rfl⟩ := map_eq_some_iff.mp h
      exact .inr ⟨.forward, by simp, hstep⟩
  | receive =>
    split at h
    · simp at h
    · rename_i frame up hup
      obtain ⟨primary, hstep, rfl⟩ := map_eq_some_iff.mp h
      exact .inr ⟨.receive frame, by simp, hstep⟩
  | flush =>
    split at h
    · simp at h
    · split at h
      · simp at h
      · cases h
        exact .inl rfl
  | take =>
    split at h
    · obtain ⟨follower, -, rfl⟩ := map_eq_some_iff.mp h
      exact .inl rfl
    · simp at h
  | follower b =>
    obtain ⟨follower, -, rfl⟩ := map_eq_some_iff.mp h
    exact .inl rfl

theorem conveyed_of_reach (h : (lane validHeader isAllowedTunnelTarget validMethod).Reach PayloadSound {} s) :
    ∀ r req, s.primary.requests r = some req → Conveyed req.upload := by
  refine h.strengthen (I := fun s => ∀ r req, s.primary.requests r = some req → Conveyed req.upload) carried_of_reach
    (fun r req hreq => nomatch hreq) ?_
  intro s s' a hc hs _ hok hstep r req hreq
  rcases laneStep_primary hstep with hsame | ⟨b, hbridge, hstep⟩
  · rw [hsame] at hreq
    exact hc r req hreq
  · rcases upload_step hstep hs.aborts hreq with ⟨req1, h1, -, hupload⟩ | hbegan
    · exact (hc r req1 h1).step (hs.uploaded r req1 h1) hupload fun ⟨r, hb⟩ => hok r (hbridge r hb)
    · exact .began hbegan

theorem payload_of_ended {accepted sent : List Frame} (h : accepted <+: sent) (horder : InOrder sent)
    (hend : hasKind .requestEnd accepted) : payload .requestBody sent = payload .requestBody accepted := by
  obtain ⟨rest, rfl⟩ := h
  obtain ⟨f, hf, hkind⟩ := hend
  have hrest : payload .requestBody rest = [] := by
    refine flatMap_eq_nil_iff.mpr fun g hg => ?_
    simp [((pairwise_append.mp horder).2.2 f hf g hg).2 hkind]
  rw [payload_append, hrest, append_nil]

/-- **A request body is not cut short.** Where the payload bridge meets no error, a local request whose body ends has seen
the whole body, and the body had ended cleanly where it came from. -/
theorem request_body_whole {validHeader : String × String → Bool} {isAllowedTunnelTarget validMethod : String → Bool}
    {s : Lane} {r : ℕ} {l : LocalRequest}
    (h : (lane validHeader isAllowedTunnelTarget validMethod).Reach PayloadSound {} s)
    (hlocal : s.follower.locals r = some l) (hended : l.ended = true) :
    ∃ req, s.primary.requests r = some req ∧ req.upload.original.ending = .clean ∧
      l.seen = req.upload.original.rest := by
  have hs := carried_of_reach h
  obtain ⟨-, hseen, hend⟩ := (hs.serves.reads r l hlocal).ended hended
  have haccepted := hs.wired.accepted r
  cases hreq : s.primary.requests r with
  | none =>
    rw [Primary.sentOf, hreq] at haccepted
    have hnil : s.follower.accepted r = [] := prefix_nil.mp haccepted
    exact absurd hnil (hs.serves.started r (by simp [hlocal]))
  | some req =>
    rw [sentOf_of_requests hreq] at haccepted
    have hu := hs.uploaded r req hreq
    have hc := conveyed_of_reach h r req hreq
    have hall : hasKind .requestEnd req.upload.sent := by
      obtain ⟨f, hf, hkind⟩ := hend
      exact ⟨f, haccepted.subset hf, hkind⟩
    refine ⟨req, rfl, (hc.ended hall).1, ?_⟩
    rw [hseen, ← payload_of_ended haccepted hu.inOrder hend]
    exact (hc.ended hall).2

/-- A body that goes through the bridge, its last frame and its end at the local request. -/
def bridgedBody (ending : Ending) (last : BridgeAct) : List LaneAct :=
  [.primary (.beginSend "PUT" "/object" [] none ⟨[7], ending⟩ (.bridged ⟨[7], ending⟩ [] true)),
    .primary (.bridge 0 (.chunk 1)), .primary (.bridge 0 last), .primary (.queueStart 0), .primary (.sendBody 0 1),
    .primary (.sendBody 0 1), .forward, .forward, .forward, .take, .take, .take,
    .follower (.readLocal 0), .follower (.endLocal 0)]

theorem request_body_whole_bridged :
    ∃ s l, (lane (fun _ => true) (fun _ => true) fun _ => true).Reach PayloadSound {} s ∧
      s.follower.locals 0 = some l ∧ l.ended = true ∧ l.seen = [7] ∧
      ∃ req, s.primary.requests 0 = some req ∧ req.upload.original.ending = .clean ∧
        l.seen = req.upload.original.rest := by
  have hrun : (((lane (fun _ => true) (fun _ => true) fun _ => true).run PayloadSound
      (bridgedBody .clean .finish) {}).bind fun s => (s.follower.locals 0).map fun l => (l.ended, l.seen)) =
        some (true, [7]) := by decide
  obtain ⟨s, hs, hl⟩ := bind_eq_some_iff.mp hrun
  obtain ⟨l, hl, hended, hseen⟩ := map_pair_eq_some hl
  have hreach := Lts.reach_of_run hs
  exact ⟨s, l, hreach, hl, hended, hseen, request_body_whole hreach hl hended⟩

/-- The source fails after one byte. The bridge logs the error and drops its writer, and the local request finds the end of
its body. -/
theorem request_body_truncated :
    ¬ ∀ (s : Lane) (r : ℕ) (l : LocalRequest), (lane (fun _ => true) (fun _ => true) fun _ => true).Reach Lts.free {} s →
      s.follower.locals r = some l → l.ended = true →
        ∃ req, s.primary.requests r = some req ∧ req.upload.original.ending = .clean ∧
          l.seen = req.upload.original.rest := by
  intro hall
  have hrun : (((lane (fun _ => true) (fun _ => true) fun _ => true).run Lts.free (bridgedBody .fails .fail) {}).bind
      fun s => (s.follower.locals 0).bind fun l => (s.primary.requests 0).map fun req =>
        (l.ended, req.upload.original.ending)) = some (true, .fails) := by decide
  obtain ⟨s, hs, hl⟩ := bind_eq_some_iff.mp hrun
  obtain ⟨l, hl, hreq⟩ := bind_eq_some_iff.mp hl
  obtain ⟨req, hreq, hended, hfails⟩ := map_pair_eq_some hreq
  obtain ⟨req', hreq', hclean, -⟩ := hall s 0 l (Lts.reach_of_run hs) hl hended
  obtain rfl : req = req' := some.inj (hreq.symm.trans hreq')
  simp [hfails] at hclean

end AsterDrive.Tunnel
