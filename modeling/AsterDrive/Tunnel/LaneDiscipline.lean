import AsterDrive.Tunnel.Deliveries
import AsterDrive.Tunnel.Turns

/-!
# Tunnel/LaneDiscipline — the two ends agree where one request ends and the next begins

A lane serves one request after the other. The primary frees it when it gives up a request: it has read the whole
response, it drops the reader before that, it waits too long for the start of the response, or its caller drops the
future. The follower takes the next request only between two of them, and closes the lane over anything else.

`Current` is what holds of the request that has the lane, `Exchange` of all of them. The invariant is about the turn that
the follower will be at once it has taken what is on its way (`Lane.turn`): the body task has something to send exactly
while the follower has something to take. It is kept as long as the primary gives up a request only when the follower is
done with it (`Orderly`, `lane_disciplined`). Otherwise the follower may meet the error frame of a dropped reader in the
middle of its own answer, and closes the lane (`reader_drop_violates`).
-/

namespace AsterDrive.Tunnel

open List Option Function Primary Follower Reply Response ServePhase

/-- What the answer of a request has come to, as the primary has heard it. -/
def Response.reply (res : Response) : Reply :=
  if res.startTx then .unheard
  else
    match res.start with
    | some (.ok ()) => if res.responseComplete then .ended else .started
    | _ => .failed

/-- The body task is at work. -/
def BodyTask.active : BodyTask → Bool
  | .sending | .reporting _ => true
  | .unstarted | .finished => false

section Defs

variable (validHeader : String × String → Bool) (allowed validMethod : String → Bool)

/-- The turn that the follower will be at once it has taken what is on its way. -/
def Lane.turn (s : Lane) : Option Turn :=
  s.follower.phase.turn.takeAll allowed validMethod (s.down ++ s.primary.requestQueue)

/-- The follower will write nothing more for the request, or nothing but an error. -/
def Quiet (s : Lane) (t : Turn) (r : ℕ) : Prop :=
  (t = .idle ∨ t = .drain r) ∧ (∀ f ∈ s.down ++ s.primary.requestQueue, f.requestId = r → ¬ f.forbidden allowed) ∧
    (∀ f ∈ s.up ++ s.follower.outbox, f.requestId = r → f.kind = .error) ∧ s.primary.inflight r = []

instance (s : Lane) (t : Turn) (r : ℕ) : Decidable (Quiet allowed s t r) := inferInstanceAs (Decidable (_ ∧ _ ∧ _ ∧ _))

/-- The answer of request `r`, once everything on the way back is heard, against what the follower is at. -/
structure Answers (f : Follower) (t : Turn) (r : ℕ) (a : Reply) : Prop where
  unheard : f.accepted r = [] → a = .unheard
  reading : f.phase = .reading r ∨ f.phase = .waiting r → a = .unheard
  responding : f.phase = .responding r → a = .started
  draining : f.phase = .draining r → a = .ended
  failed : a = .failed → t = .idle

/-- What holds of the request that has the lane. -/
structure Current (s : Lane) (t : Turn) (r : ℕ) (req : Request) : Prop where
  pending : req.response.pending = true
  busy : s.primary.busy = true
  turn : t = .idle ∨ t = .body r ∨ t = .wait r ∨ t = .drain r
  sends : req.upload.task.active = true ↔ t = .body r ∨ t = .drain r
  unstarted : req.upload.task = .unstarted → t = .idle
  heard : ∃ a, req.response.reply.hearAll validHeader (framesOf r (s.up ++ s.follower.outbox)) = some a ∧
    Answers s.follower t r a
  incomplete : req.response.startTx = true → req.response.responseComplete = false
  handled : ∀ h, s.primary.handling = some h → h.requestId = r ∧ req.response.start = some (.ok ()) ∧
    req.response.receiving = true ∧ (req.response.responseComplete = true ↔ h.item = .finished)
  finished : .finished ∈ req.response.body ∨ req.response.outcome = some .eof →
    req.response.responseComplete = true ∧ s.primary.handling = none
  quiet : req.response.phase = .over → Quiet allowed s t r

/-- The lane is free, or one request has it. -/
structure Exchange (s : Lane) (t : Turn) : Prop where
  aborts : s.primary.aborts = []
  settled : ∀ r req, s.primary.requests r = some req → req.response.pending = false → req.upload.task.active = false
  current : (t = .idle ∧ s.primary.handling = none ∧ ∀ r req, s.primary.requests r = some req → req.response.pending = false) ∨
    ∃ r req, s.primary.requests r = some req ∧ Current validHeader allowed s t r req ∧
      ∀ q req, q ≠ r → s.primary.requests q = some req → req.response.pending = false

/-- The lane as long as it runs: the follower can take what is on its way, and the exchange is in order if it is there to do
so. -/
def Live (s : Lane) : Prop := ∃ t, s.turn allowed validMethod = some t ∧ (t ≠ .gone → Exchange validHeader allowed s t)

/-- The invariant. -/
structure Disciplined (s : Lane) : Prop where
  sound : ∀ message, s.follower.phase ≠ .stopped (.violation message)
  hosted : ∀ r, s.follower.phase = .reading r → s.follower.locals r ≠ none
  safe : ∃ t, s.follower.phase.turn.takeAll allowed validMethod s.down = some t
  live : s.primary.status = .running → Live validHeader allowed validMethod s

/-- `p` of the turn that the follower will be at and of request `r`, while the request has the lane. -/
def Lane.whilePending (s : Lane) (r : ℕ) (p : Turn → Request → Prop) : Prop :=
  s.primary.status = .running → ∀ t ∈ s.turn allowed validMethod, t ≠ .gone →
    ∀ req ∈ s.primary.requests r, req.response.pending = true → p t req

instance (s : Lane) (r : ℕ) (p : Turn → Request → Prop) [∀ t req, Decidable (p t req)] :
    Decidable (s.whilePending allowed validMethod r p) :=
  inferInstanceAs (Decidable (_ → ∀ t ∈ _, _ → ∀ req ∈ _, _ → _))

/-- The primary gives up a request only once the follower is done with it. -/
def Orderly (s : Lane) : LaneAct → Prop
  | .primary (.dropReader r) => s.whilePending allowed validMethod r fun t req =>
    t = .idle ∧ req.response.responseComplete = true ∧ s.primary.inflight r = []
  | .primary (.timeoutStart r) => s.whilePending allowed validMethod r fun t _ => t = .idle
  | .primary (.cancelSend r) => s.whilePending allowed validMethod r fun t req =>
    req.response.phase = .starting ∨ Quiet allowed s t r
  | _ => True

instance (s : Lane) (a : LaneAct) : Decidable (Orderly allowed validMethod s a) := by
  unfold Orderly
  split <;> infer_instance

end Defs

section Laws

variable {validHeader : String × String → Bool} {allowed validMethod : String → Bool}
variable {s s' : Lane} {t t' : Turn} {r q : ℕ} {req req' : Request} {primary : Primary} {frame : Frame} {a : Reply}

/-! ### The request that has the lane -/

theorem turn_of_stopped {phase : ServePhase} (h : phase.isStopped = true) : phase.turn = .gone := by
  cases phase <;> first | rfl | simp [isStopped] at h

theorem Quiet.mono (h : Quiet allowed s t r)
    (hdown : ∀ f ∈ s'.down ++ s'.primary.requestQueue, f.requestId = r → f ∈ s.down ++ s.primary.requestQueue)
    (hup : ∀ f ∈ s'.up ++ s'.follower.outbox, f.requestId = r → f ∈ s.up ++ s.follower.outbox)
    (hinflight : s'.primary.inflight r = s.primary.inflight r) : Quiet allowed s' t r := by
  obtain ⟨hturn, hforbidden, herror, hnone⟩ := h
  exact ⟨hturn, fun f hf hid => hforbidden f (hdown f hf hid) hid, fun f hf hid => herror f (hup f hf hid) hid,
    hinflight.trans hnone⟩

theorem inflight_eq {s s' : Primary} (h : s'.handling = s.handling) : s'.inflight r = s.inflight r := by
  simp [inflight, h]

variable {res : Response}

theorem reply_of_tx (h : res.startTx = true) : res.reply = .unheard := by
  simp [reply, h]

theorem reply_of_start (htx : res.startTx = false) (hstart : res.start = some (.ok ())) :
    res.reply = if res.responseComplete then .ended else .started := by
  simp [reply, htx, hstart]

theorem reply_of_failure (htx : res.startTx = false) (hstart : res.start ≠ some (.ok ())) : res.reply = .failed := by
  rw [reply, if_neg (by simp [htx])]
  split
  · rename_i hok
    exact absurd hok hstart
  · rfl

theorem reply_unheard (h : res.reply = .unheard) : res.startTx = true := by
  by_contra htx
  have htx' : res.startTx = false := by simpa using htx
  by_cases hstart : res.start = some (.ok ())
  · rw [reply_of_start htx' hstart] at h
    split_ifs at h
  · simp [reply_of_failure htx' hstart] at h

theorem reply_started (h : res.reply = .started) :
    res.startTx = false ∧ res.start = some (.ok ()) ∧ res.responseComplete = false := by
  have htx : res.startTx = false := by
    by_contra htx
    simp [reply_of_tx (by simpa using htx)] at h
  have hstart : res.start = some (.ok ()) := by
    by_contra hstart
    simp [reply_of_failure htx hstart] at h
  rw [reply_of_start htx hstart] at h
  by_cases hcomplete : res.responseComplete = true
  · simp [hcomplete] at h
  · exact ⟨htx, hstart, by simpa using hcomplete⟩

theorem reply_congr {res' : Response} (htx : res'.startTx = res.startTx) (hstart : res'.start = res.start)
    (hcomplete : res'.responseComplete = res.responseComplete) : res'.reply = res.reply := by
  simp [reply, htx, hstart, hcomplete]

namespace Current

section

variable (hc : Current validHeader allowed s t r req)
include hc

theorem handling_none (hstart : req.response.start ≠ some (.ok ()) ∨ s.primary.inflight r = []) : s.primary.handling = none := by
  by_contra hsome
  obtain ⟨hd, hhd⟩ := ne_none_iff_exists'.mp hsome
  obtain ⟨hid, hok, -⟩ := hc.handled hd hhd
  simp [inflight_of_handling hhd, hid, hok] at hstart

theorem congr (hbusy : s'.primary.busy = s.primary.busy) (hhandling : s'.primary.handling = s.primary.handling)
    (hframes : framesOf r (s'.up ++ s'.follower.outbox) = framesOf r (s.up ++ s.follower.outbox))
    (hanswers : ∀ a, Answers s.follower t r a → Answers s'.follower t r a)
    (hquiet : Quiet allowed s t r → Quiet allowed s' t r) : Current validHeader allowed s' t r req := by
  obtain ⟨a, ha, hans⟩ := hc.heard
  exact {
    __ := hc
    busy := hbusy.trans hc.busy
    heard := ⟨a, hframes.symm ▸ ha, hanswers a hans⟩
    handled := fun h hh => hc.handled h (hhandling ▸ hh)
    finished := fun h => ⟨(hc.finished h).1, hhandling.trans (hc.finished h).2⟩
    quiet := fun h => hquiet (hc.quiet h) }

theorem reader_moves {res : Response}
    (hpending : res.pending = req.response.pending) (htx : res.startTx = req.response.startTx)
    (hstart : res.start = req.response.start) (hcomplete : res.responseComplete = req.response.responseComplete)
    (hreceiving : s.primary.handling ≠ none → res.receiving = true)
    (hfinished : .finished ∈ res.body ∨ res.outcome = some .eof →
      .finished ∈ req.response.body ∨ req.response.outcome = some .eof)
    (hover : res.phase = .over → Quiet allowed s t r) :
    Current validHeader allowed { s with primary := s.primary.setResponse r req res } t r { req with response := res } where
  pending := hpending.trans hc.pending
  __ := hc
  heard := by
    show ∃ a, res.reply.hearAll validHeader _ = some a ∧ _
    rw [reply_congr htx hstart hcomplete]
    exact hc.heard
  incomplete h := by
    show res.responseComplete = false
    rw [hcomplete]
    exact hc.incomplete (htx ▸ h)
  handled h hh := by
    obtain ⟨hid, hok, -, hitem⟩ := hc.handled h hh
    have hsome : s.primary.handling ≠ none := by
      rw [show s.primary.handling = some h from hh]
      simp
    exact ⟨hid, hstart.trans hok, hreceiving hsome, by rw [← hitem, ← hcomplete]⟩
  finished h := by
    obtain ⟨hdone, hnone⟩ := hc.finished (hfinished h)
    exact ⟨hcomplete.trans hdone, hnone⟩
  quiet h := hover h

theorem upload_moves (upload : Upload)
    (hactive : upload.task.active = req.upload.task.active) (hunstarted : upload.task = .unstarted → req.upload.task = .unstarted) :
    Current validHeader allowed { s with primary := s.primary.setRequest r { req with upload } } t r { req with upload } where
  __ := hc
  sends := by
    show upload.task.active = true ↔ _
    rw [hactive]
    exact hc.sends
  unstarted h := hc.unstarted (hunstarted h)

theorem enqueues (upload : Upload) (hactive : req.upload.task.active = true)
    (hid : frame.requestId = r) (hkind : frame.kind ≠ .requestStart) (ht : t.take allowed validMethod frame = some t')
    (htask : upload.task.active = true ↔ t' = .body r ∨ t' = .drain r) (hstarted : upload.task ≠ .unstarted) :
    Current validHeader allowed { s with primary := s.primary.enqueue r { req with upload } frame } t' r
      { req with upload.reader := upload.reader, upload.original := upload.original, upload.task := upload.task,
                 upload.sent := upload.sent ++ [frame] } := by
  have hturn := hc.sends.mp hactive
  obtain ⟨a, ha, hans⟩ := hc.heard
  have hfailed : a ≠ .failed := by
    intro h
    have hidle := hans.failed h
    rcases hturn with rfl | rfl <;> simp at hidle
  have hnext : (t' = .idle ∨ t' = .body r ∨ t' = .wait r ∨ t' = .drain r) ∧ (t = .drain r → t' = .idle ∨ t' = .drain r) := by
    rcases hturn with rfl | rfl
    all_goals
      rw [Turn.take, if_pos hid] at ht
      split at ht
      · exact ⟨by simp [← some.inj ht], by simp [← some.inj ht]⟩
      · exact ⟨by simp [← some.inj ht], by simp [← some.inj ht]⟩
      · exact ⟨by simp [← some.inj ht], by simp [← some.inj ht]⟩
      · simp at ht
  exact {
    __ := hc
    turn := hnext.1
    sends := htask
    unstarted := fun h => absurd h hstarted
    heard := ⟨a, ha, hans.unheard, hans.reading, hans.responding, hans.draining, fun h => absurd h hfailed⟩
    quiet := fun h => by
      obtain ⟨hidle, hforbidden, herror, hnone⟩ := hc.quiet h
      have hdrain : t = .drain r := by
        rcases hidle with rfl | hdrain
        · rcases hturn with hbody | hdrain
          · simp at hbody
          · simp at hdrain
        · exact hdrain
      refine ⟨hnext.2 hdrain, fun f hf hfid => ?_, herror, hnone⟩
      rw [show ({ s with primary := s.primary.enqueue r { req with upload } frame } : Lane).primary.requestQueue =
        s.primary.requestQueue ++ [frame] from rfl, ← append_assoc] at hf
      rcases mem_append.mp hf with hold | hnew
      · exact hforbidden f hold hfid
      · obtain rfl := mem_singleton.mp hnew
        exact fun h => hkind h.1 }

theorem hears {up : List Frame}
    (hup : s.up = frame :: up) (hid : frame.requestId = r) (hprimary : primary.busy = s.primary.busy)
    (hqueue : primary.requestQueue = s.primary.requestQueue) (hidle : s.primary.inflight r = [])
    (hpending : req'.response.pending = true) (htask : req'.upload.task = req.upload.task)
    (hreply : ∀ b, req.response.reply.hear validHeader frame = some b → req'.response.reply = b)
    (hincomplete : req'.response.startTx = true → req'.response.responseComplete = false)
    (hhandled : ∀ h, primary.handling = some h → h.requestId = r ∧ req'.response.start = some (.ok ()) ∧
      req'.response.receiving = true ∧ (req'.response.responseComplete = true ↔ h.item = .finished))
    (hfinished : ¬ (.finished ∈ req'.response.body ∨ req'.response.outcome = some .eof))
    (hover : req'.response.phase = .over → req.response.phase = .over ∧ primary.handling = none) :
    Current validHeader allowed { s with primary, up } t r req' where
  pending := hpending
  busy := hprimary.trans hc.busy
  turn := hc.turn
  sends := by
    rw [htask]
    exact hc.sends
  unstarted h := hc.unstarted (htask ▸ h)
  heard := by
    obtain ⟨a, ha, hans⟩ := hc.heard
    rw [hup, cons_append, framesOf_cons, if_pos hid, hearAll_cons] at ha
    obtain ⟨b, hb, ha⟩ := bind_eq_some_iff.mp ha
    exact ⟨a, by rw [hreply b hb]; exact ha, hans⟩
  incomplete := hincomplete
  handled := hhandled
  finished h := absurd h hfinished
  quiet h := by
    obtain ⟨hold, hnone⟩ := hover h
    refine (hc.quiet hold).mono (fun f hf _ => ?_) (fun f hf _ => ?_) ?_
    · rwa [show ({ s with primary, up } : Lane).primary.requestQueue = s.primary.requestQueue from hqueue] at hf
    · rw [hup]
      exact mem_cons_of_mem _ hf
    · rw [hidle]
      simp [inflight, hnone]

end

end Current

/-! ### All requests -/

namespace Exchange

section

variable (he : Exchange validHeader allowed s t) (hreq : s.primary.requests r = some req)
  (hpending : req.response.pending = true)
include he hreq hpending

theorem current_of : Current validHeader allowed s t r req ∧
      ∀ q req, q ≠ r → s.primary.requests q = some req → req.response.pending = false := by
  rcases he.current with ⟨-, -, hnone⟩ | ⟨r1, req1, h1, hcur, hothers⟩
  · simp [hnone r req hreq] at hpending
  · by_cases hid : r = r1
    · subst hid
      obtain rfl : req1 = req := some.inj (h1.symm.trans hreq)
      exact ⟨hcur, hothers⟩
    · simp [hothers r req hid hreq] at hpending

theorem moves (hset : ∀ q, s'.primary.requests q = if q = r then some req' else s.primary.requests q)
    (haborts : s'.primary.aborts = []) (hcur : Current validHeader allowed s' t' r req') :
    Exchange validHeader allowed s' t' := by
  have hothers := (he.current_of hreq hpending).2
  have hold : ∀ q req, q ≠ r → s'.primary.requests q = some req → s.primary.requests q = some req := by
    intro q req hid hq
    rwa [hset, if_neg hid] at hq
  refine ⟨haborts, fun q req1 hq hgone => ?_, .inr ⟨r, req', by simp [hset], hcur, fun q req1 hid hq => ?_⟩⟩
  · by_cases hid : q = r
    · subst hid
      rw [hset, if_pos rfl] at hq
      cases hq
      simp [hcur.pending] at hgone
    · exact he.settled q req1 (hold q req1 hid hq) hgone
  · exact hothers q req1 hid (hold q req1 hid hq)

theorem frees (hset : ∀ q, s'.primary.requests q = if q = r then some req' else s.primary.requests q)
    (haborts : s'.primary.aborts = []) (hhandling : s'.primary.handling = none) (hgone : req'.response.pending = false)
    (htask : req'.upload.task = req.upload.task) (hidle : t = .idle) : Exchange validHeader allowed s' t := by
  obtain ⟨hcur, hothers⟩ := he.current_of hreq hpending
  have hinactive : req'.upload.task.active = false := by
    by_contra hactive
    have hsends := hcur.sends.mp (by simpa [htask] using hactive)
    simp [hidle] at hsends
  have hall : ∀ q req, s'.primary.requests q = some req → req.response.pending = false ∧ req.upload.task.active = false := by
    intro q req1 hq
    by_cases hid : q = r
    · subst hid
      rw [hset, if_pos rfl] at hq
      cases hq
      exact ⟨hgone, hinactive⟩
    · rw [hset, if_neg hid] at hq
      have hdone := hothers q req1 hid hq
      exact ⟨hdone, he.settled q req1 hq hdone⟩
  exact ⟨haborts, fun q req1 hq _ => (hall q req1 hq).2, .inl ⟨hidle, hhandling, fun q req1 hq => (hall q req1 hq).1⟩⟩

end

theorem aside (he : Exchange validHeader allowed s t) (hreq : s.primary.requests q = some req)
    (hpending : req.response.pending = false)
    (hset : ∀ q', s'.primary.requests q' = if q' = q then some req' else s.primary.requests q')
    (hgone : req'.response.pending = false) (htask : req'.upload.task = req.upload.task)
    (haborts : s'.primary.aborts = []) (hhandling : s'.primary.handling = s.primary.handling)
    (hcur : ∀ r req, r ≠ q → Current validHeader allowed s t r req → Current validHeader allowed s' t r req) :
    Exchange validHeader allowed s' t := by
  have hall : ∀ q' req1, s'.primary.requests q' = some req1 →
      (q' = q ∧ req1 = req') ∨ q' ≠ q ∧ s.primary.requests q' = some req1 := by
    intro q' req1 hq
    rw [hset] at hq
    split_ifs at hq with hid
    · exact .inl ⟨hid, (some.inj hq).symm⟩
    · exact .inr ⟨hid, hq⟩
  refine ⟨haborts, fun q' req1 hq hdone => ?_, ?_⟩
  · rcases hall q' req1 hq with ⟨rfl, rfl⟩ | ⟨-, hold⟩
    · rw [htask]
      exact he.settled q' req hreq hpending
    · exact he.settled q' req1 hold hdone
  · rcases he.current with ⟨hidle, hnone, hothers⟩ | ⟨r1, req1, h1, hcur1, hothers⟩
    · refine .inl ⟨hidle, hhandling.trans hnone, fun q' req2 hq => ?_⟩
      rcases hall q' req2 hq with ⟨-, rfl⟩ | ⟨-, hold⟩
      · exact hgone
      · exact hothers q' req2 hold
    · have hne : r1 ≠ q := by
        rintro rfl
        obtain rfl : req1 = req := some.inj (h1.symm.trans hreq)
        simp [hcur1.pending] at hpending
      refine .inr ⟨r1, req1, by rw [hset, if_neg hne]; exact h1, hcur r1 req1 hne hcur1, fun q' req2 hid hq => ?_⟩
      rcases hall q' req2 hq with ⟨-, rfl⟩ | ⟨-, hold⟩
      · exact hgone
      · exact hothers q' req2 hid hold

theorem congr (he : Exchange validHeader allowed s t) (hrequests : s'.primary.requests = s.primary.requests)
    (haborts : s'.primary.aborts = s.primary.aborts) (hhandling : s'.primary.handling = s.primary.handling)
    (hidle : t = .idle → t' = .idle)
    (hcur : ∀ r req, s.primary.requests r = some req → Current validHeader allowed s t r req →
      Current validHeader allowed s' t' r req) :
    Exchange validHeader allowed s' t' := by
  refine ⟨haborts.trans he.aborts, by rw [hrequests]; exact he.settled, ?_⟩
  rw [hrequests, hhandling]
  rcases he.current with ⟨hfree, hnone, hothers⟩ | ⟨r1, req1, h1, hcur1, hothers⟩
  · exact .inl ⟨hidle hfree, hnone, hothers⟩
  · exact .inr ⟨r1, req1, h1, hcur r1 req1 h1 hcur1, hothers⟩

end Exchange

/-! ### Steps of the primary -/

theorem take_start (hkind : frame.kind = .requestStart) : ∃ t', Turn.idle.take allowed validMethod frame = some t' ∧
    (t' = .gone ∨ t' = .body frame.requestId ∨ t' = .drain frame.requestId) := by
  rw [Turn.take, if_pos hkind]
  split
  · split_ifs
    · exact ⟨_, rfl, .inr (.inr rfl)⟩
    · exact ⟨_, rfl, .inl rfl⟩
    · exact ⟨_, rfl, .inr (.inl rfl)⟩
  · exact ⟨_, rfl, .inl rfl⟩

namespace Live

theorem same (hl : Live validHeader allowed validMethod s) (hturn : s'.turn allowed validMethod = s.turn allowed validMethod)
    (h : ∀ t, s.turn allowed validMethod = some t → t ≠ .gone → Exchange validHeader allowed s t →
      Exchange validHeader allowed s' t) :
    Live validHeader allowed validMethod s' := by
  obtain ⟨t, ht, he⟩ := hl
  exact ⟨t, hturn.trans ht, fun hgone => h t ht hgone (he hgone)⟩

theorem snoc (hl : Live validHeader allowed validMethod s) (hqueue : primary.requestQueue = s.primary.requestQueue ++ [frame])
    (h : ∀ t, t ≠ .gone → Exchange validHeader allowed s t →
      ∃ t', t.take allowed validMethod frame = some t' ∧ (t' ≠ .gone → Exchange validHeader allowed { s with primary } t')) :
    Live validHeader allowed validMethod { s with primary } := by
  obtain ⟨t, hturn, he⟩ := hl
  have hnext : ∀ {t'}, t.take allowed validMethod frame = some t' →
      ({ s with primary } : Lane).turn allowed validMethod = some t' := by
    intro t' ht'
    have hsnoc := Turn.takeAll_snoc hturn ht'
    simpa [Lane.turn, hqueue] using hsnoc
  by_cases hgone : t = .gone
  · subst hgone
    exact ⟨.gone, hnext rfl, fun h => absurd rfl h⟩
  · obtain ⟨t', ht', he'⟩ := h t hgone (he hgone)
    exact ⟨t', hnext ht', he'⟩

theorem pending_of_phase (hv : Relayed s) (hrun : s.primary.status = .running) (hreq : s.primary.requests r = some req)
    (hphase : req.response.phase ≠ .over) : req.response.pending = true := by
  by_contra hgone
  have hstop := (hv.views r req hreq).1.stopped hphase (by simpa [view] using hgone)
  simp [view, hrun] at hstop

theorem current_of_active (he : Exchange validHeader allowed s t) (hreq : s.primary.requests r = some req)
    (hactive : req.upload.task.active = true) : req.response.pending = true ∧ Current validHeader allowed s t r req := by
  have hpending : req.response.pending = true := by
    by_contra hgone
    simp [he.settled r req hreq (by simpa using hgone)] at hactive
  exact ⟨hpending, (he.current_of hreq hpending).1⟩

section

variable (hl : Live validHeader allowed validMethod s)
include hl

theorem beginSend {method pathAndQuery : String} {headers : List (String × String)} {contentLength : Option ℕ}
    {original : Source} {reader : BodyReader} (hc : Carried s) (hv : Relayed s)
    (h : s.primary.beginSend method pathAndQuery headers contentLength original reader = some primary) :
    Live validHeader allowed validMethod { s with primary } := by
  simp only [Primary.beginSend, ite_none_left_eq_some, some.injEq] at h
  obtain ⟨hbusy, rfl⟩ := h
  refine hl.same rfl fun t hturn ht he => ?_
  have hfree : t = .idle ∧ s.primary.handling = none ∧
      ∀ r req, s.primary.requests r = some req → req.response.pending = false := by
    rcases he.current with hfree | ⟨r, req, -, hcur, -⟩
    · exact hfree
    · exact absurd hcur.busy hbusy
  obtain ⟨rfl, hnone, hothers⟩ := hfree
  -- nothing of the new request is anywhere
  have hnew : s.primary.requests s.primary.next = none := hc.known.fresh _ (Nat.le_refl _)
  have haccepted : s.follower.accepted s.primary.next = [] := by
    have hprefix := hc.wired.accepted s.primary.next
    rw [sentOf, hnew] at hprefix
    exact prefix_nil.mp hprefix
  have hframes : framesOf s.primary.next (s.up ++ s.follower.outbox) = [] := by
    refine filter_eq_nil_iff.mpr fun f hf hid => ?_
    have hid : f.requestId = s.primary.next := by simpa using hid
    exact hv.upstream f hf (hid ▸ haccepted)
  have hserved : s.follower.phase.request ≠ some s.primary.next := fun h => hv.serving _ h haccepted
  have hset : ∀ q, q ≠ s.primary.next → ∀ req, Function.update s.primary.requests s.primary.next (some req) q =
      s.primary.requests q := fun q hid req => update_of_ne hid _ _
  refine ⟨he.aborts, fun q req hq hdone => ?_, .inr ⟨s.primary.next, _, update_self .., ?_, fun q req hid hq => ?_⟩⟩
  · by_cases hid : q = s.primary.next
    · subst hid
      obtain rfl := some.inj (hq.symm.trans (update_self ..))
      rfl
    · exact he.settled q req ((hset q hid _).symm.trans hq) hdone
  · exact {
      pending := rfl
      busy := rfl
      turn := .inl rfl
      sends := by simp [BodyTask.active]
      unstarted := fun _ => rfl
      heard := by
        refine ⟨.unheard, ?_, ⟨fun _ => rfl, fun _ => rfl, fun h => ?_, fun h => ?_, by simp⟩⟩
        · show hearAll validHeader _ (framesOf s.primary.next (s.up ++ s.follower.outbox)) = _
          rw [hframes]
          rfl
        all_goals exact absurd (by rw [h]; rfl) hserved
      incomplete := fun _ => rfl
      handled := fun h hh => by
        rw [show s.primary.handling = some h from hh] at hnone
        simp at hnone
      finished := fun h => by simp at h
      quiet := fun h => by simp at h }
  · exact hothers q req ((hset q hid _).symm.trans hq)

theorem queueStart (hc : Carried s) (hv : Relayed s)
    (hrun : s.primary.status = .running) (hreq : s.primary.requests r = some req)
    (h : s.primary.queueStart r req = some primary) : Live validHeader allowed validMethod { s with primary } := by
  obtain ⟨hphase, ⟨hclosed, -⟩ | ⟨-, rfl⟩⟩ := queueStart_cases h
  · simp [hrun] at hclosed
  refine hl.snoc rfl fun t ht he => ?_
  have hu := hc.uploaded r req hreq
  obtain ⟨htask, hsent⟩ := hu.unstarted hphase
  have hpending := pending_of_phase hv hrun hreq (by simp [hphase])
  have hcur := (he.current_of hreq hpending).1
  obtain rfl := hcur.unstarted htask
  obtain ⟨t', htake, ht'⟩ : ∃ t', Turn.idle.take allowed validMethod req.start = some t' ∧
      (t' = .gone ∨ t' = .body req.start.requestId ∨ t' = .drain req.start.requestId) := take_start hu.start.1
  rw [hu.start.2] at ht'
  refine ⟨t', htake, fun hgone => he.moves hreq hpending (fun _ => requests_enqueue) he.aborts ?_⟩
  have ht'' : t' = .body r ∨ t' = .drain r := ht'.resolve_left hgone
  -- the follower has not heard of the request
  have haccepted : s.follower.accepted r = [] := by
    have hprefix := hc.wired.accepted r
    rw [sentOf_of_requests hreq, hsent] at hprefix
    exact prefix_nil.mp hprefix
  obtain ⟨a, ha, hans⟩ := hcur.heard
  have hunheard := hans.unheard haccepted
  exact {
    pending := hpending
    __ := hcur
    turn := by rcases ht'' with rfl | rfl <;> simp
    sends := by simp [BodyTask.active, ht'']
    unstarted := fun h => by simp at h
    heard := ⟨a, ha, hans.unheard, hans.reading, hans.responding, hans.draining, fun h => by simp [hunheard] at h⟩
    handled := fun h hh => by
      obtain ⟨hid, hok, -, hitem⟩ := hcur.handled h hh
      exact ⟨hid, hok, rfl, hitem⟩
    quiet := fun h => by simp at h }

theorem sendBody {n : ℕ} (hreq : s.primary.requests r = some req) (h : s.primary.sendBody r req n = some primary) :
    Live validHeader allowed validMethod { s with primary } := by
  obtain ⟨htask, result, reader, -, hwhich⟩ := sendBody_cases h
  have hactive : req.upload.task.active = true := by rw [htask]; rfl
  obtain ⟨-, message, rfl⟩ | ⟨-, chunk, -, rfl⟩ | ⟨-, -, rfl⟩ := hwhich
  · refine hl.same rfl fun t hturn ht he => ?_
    obtain ⟨hpending, hcur⟩ := current_of_active he hreq hactive
    exact he.moves hreq hpending (fun _ => requests_setRequest) he.aborts
      (hcur.upload_moves { req.upload with reader, task := .reporting message } (by rw [hactive]; rfl) (by simp))
  · refine hl.snoc rfl fun t ht he => ?_
    obtain ⟨hpending, hcur⟩ := current_of_active he hreq hactive
    have htake : t.take allowed validMethod (.requestBody r chunk) = some t := by
      rcases hcur.sends.mp hactive with rfl | rfl <;> simp [Turn.take, Frame.requestBody]
    refine ⟨t, htake, fun _ => he.moves hreq hpending (fun _ => requests_enqueue) he.aborts ?_⟩
    exact hcur.enqueues { req.upload with reader } hactive rfl (by simp [Frame.requestBody]) htake hcur.sends
      (by simp [htask])
  · refine hl.snoc rfl fun t ht he => ?_
    obtain ⟨hpending, hcur⟩ := current_of_active he hreq hactive
    obtain ⟨t', htake, ht'⟩ : ∃ t', t.take allowed validMethod (.requestEnd r) = some t' ∧ (t' = .wait r ∨ t' = .idle) := by
      rcases hcur.sends.mp hactive with rfl | rfl
      · exact ⟨.wait r, by simp [Turn.take, Frame.requestEnd], .inl rfl⟩
      · exact ⟨.idle, by simp [Turn.take, Frame.requestEnd], .inr rfl⟩
    refine ⟨t', htake, fun _ => he.moves hreq hpending (fun _ => requests_enqueue) he.aborts ?_⟩
    refine hcur.enqueues { req.upload with reader, task := .finished } hactive rfl (by simp [Frame.requestEnd])
      htake ?_ (by simp)
    rcases ht' with rfl | rfl <;> simp [BodyTask.active]

theorem reportBody (hreq : s.primary.requests r = some req)
    (hrun : s.primary.status = .running) (h : s.primary.reportBody r req = some primary) :
    Live validHeader allowed validMethod { s with primary } := by
  obtain ⟨message, htask, ⟨hclosed, -⟩ | ⟨-, rfl⟩⟩ := reportBody_cases h
  · simp [hrun] at hclosed
  have hactive : req.upload.task.active = true := by rw [htask]; rfl
  refine hl.snoc rfl fun t ht he => ?_
  obtain ⟨hpending, hcur⟩ := current_of_active he hreq hactive
  have htake : t.take allowed validMethod (.ofError r message) = some .idle := by
    rcases hcur.sends.mp hactive with rfl | rfl <;> simp [Turn.take, Frame.ofError]
  refine ⟨.idle, htake, fun _ => he.moves hreq hpending (fun _ => requests_enqueue) he.aborts ?_⟩
  exact hcur.enqueues { req.upload with task := .finished } hactive rfl (by simp [Frame.ofError]) htake
    (by simp [BodyTask.active]) (by simp)

theorem bridge {reader : BodyReader} (hreq : s.primary.requests r = some req) :
    Live validHeader allowed validMethod { s with primary := s.primary.setRequest r { req with upload.reader := reader } } := by
  refine hl.same rfl fun t hturn ht he => ?_
  by_cases hpending : req.response.pending = true
  · have hcur := (he.current_of hreq hpending).1
    exact he.moves hreq hpending (fun _ => requests_setRequest) he.aborts
      (hcur.upload_moves { req.upload with reader } rfl id)
  · have hgone : req.response.pending = false := by simpa using hpending
    refine he.aside hreq hgone (fun _ => requests_setRequest) hgone rfl he.aborts rfl fun r1 req1 _ hcur => ?_
    exact hcur.congr rfl rfl rfl (fun _ => id) fun hquiet => hquiet.mono (fun _ hf _ => hf) (fun _ hf _ => hf) rfl

theorem takeStart (hv : Relayed s) (hrun : s.primary.status = .running)
    (hreq : s.primary.requests r = some req) (h : s.primary.takeStart r req = some primary) :
    Live validHeader allowed validMethod { s with primary } := by
  have hsteady := (hv.views r req hreq).1
  obtain ⟨hphase, ⟨hstart, rfl⟩ | ⟨⟨message, hstart⟩, rfl⟩ | ⟨-, hgone, -⟩⟩ := takeStart_cases h
  · have hpending := pending_of_phase hv hrun hreq (by simp [hphase])
    refine hl.same rfl fun t hturn ht he => ?_
    have hcur := (he.current_of hreq hpending).1
    refine he.moves hreq hpending (fun _ => requests_setResponse) he.aborts
      (hcur.reader_moves rfl rfl rfl rfl (fun hsome => ?_) id fun h => by simp at h)
    have houtcome : req.response.outcome ≠ some .eof := fun heof => hsome (hcur.finished (.inr heof)).2
    simp [receiving, houtcome]
  · have hpending := pending_of_phase hv hrun hreq (by simp [hphase])
    refine hl.same rfl fun t hturn ht he => ?_
    have hcur := (he.current_of hreq hpending).1
    -- the follower has sent an error, and so it is between two requests
    have htx : req.response.startTx = false := by
      by_contra htx
      have hnone : req.response.start = none := hsteady.unsent ((Bool.not_eq_false _).mp htx)
      simp [hstart] at hnone
    have hidle : t = .idle := by
      obtain ⟨a, ha, hans⟩ := hcur.heard
      rw [reply_of_failure htx (by simp [hstart])] at ha
      exact hans.failed (hearAll_over ha (.inr rfl)).2
    exact he.frees hreq hpending (fun _ => requests_dropPending) he.aborts (hcur.handling_none (.inl (by simp [hstart])))
      rfl rfl hidle
  · have hpending := pending_of_phase hv hrun hreq (by simp [hphase])
    simp [hpending] at hgone

theorem timeoutStart (hv : Relayed s) (hrun : s.primary.status = .running)
    (hok : Orderly allowed validMethod s (.primary (.timeoutStart r))) (hreq : s.primary.requests r = some req)
    (h : s.primary.timeoutStart r req = some primary) : Live validHeader allowed validMethod { s with primary } := by
  obtain ⟨hphase, hstart, rfl⟩ := timeoutStart_cases h
  have hpending := pending_of_phase hv hrun hreq (by simp [hphase])
  refine hl.same rfl fun t hturn ht he => ?_
  have hcur := (he.current_of hreq hpending).1
  have hidle := hok hrun t hturn ht req hreq hpending
  exact he.frees hreq hpending (fun _ => requests_dropPending) he.aborts (hcur.handling_none (.inl (by simp [hstart])))
    rfl rfl hidle

end

theorem quiet_of_starting (he : Exchange validHeader allowed s t) (hc : Carried s) (hv : Relayed s)
    (hturn : s.turn allowed validMethod = some t) (ht : t ≠ .gone) (hreq : s.primary.requests r = some req)
    (hpending : req.response.pending = true) (hphase : req.response.phase = .starting) : Quiet allowed s t r := by
  have hcur := (he.current_of hreq hpending).1
  obtain ⟨htask, hsent⟩ := (hc.uploaded r req hreq).unstarted hphase
  have hserving : s.follower.phase.isStopped = false := by
    by_contra hstop
    rw [Lane.turn, turn_of_stopped (by simpa using hstop), Turn.takeAll_gone] at hturn
    exact ht (some.inj hturn).symm
  obtain ⟨lost, hall, -⟩ := hc.wired.inTransit hserving r
  rw [sentOf_of_requests hreq, hsent] at hall
  obtain ⟨haccepted, hdown, hqueue, -⟩ : s.follower.accepted r = [] ∧ framesOf r s.down = [] ∧
      framesOf r s.primary.requestQueue = [] ∧ lost = [] := by
    simpa using hall.symm
  have hnone : framesOf r (s.up ++ s.follower.outbox) = [] := by
    refine filter_eq_nil_iff.mpr fun f hf hid => ?_
    have hid : f.requestId = r := by simpa using hid
    exact hv.upstream f hf (hid ▸ haccepted)
  obtain ⟨a, ha, hans⟩ := hcur.heard
  have hunheard : req.response.reply = .unheard := by
    rw [hnone] at ha
    exact (some.inj ha).trans (hans.unheard haccepted)
  have hstart : req.response.start = none := (hv.views r req hreq).1.unsent (reply_unheard hunheard)
  have hmem : ∀ {frames : List Frame} {f : Frame}, framesOf r frames = [] → f ∈ frames → f.requestId ≠ r := by
    intro frames f hempty hf hid
    have hin : f ∈ framesOf r frames := mem_filter.mpr ⟨hf, by simpa using hid⟩
    rw [hempty] at hin
    simp at hin
  refine ⟨.inl (hcur.unstarted htask), fun f hf hid => ?_, fun f hf hid => absurd hid (hmem hnone hf), ?_⟩
  · have hempty : framesOf r (s.down ++ s.primary.requestQueue) = [] := by
      rw [framesOf_append, hdown, hqueue, append_nil]
    exact absurd hid (hmem hempty hf)
  · simp [inflight, hcur.handling_none (.inl (by simp [hstart]))]

theorem cancelSend (hl : Live validHeader allowed validMethod s) (hc : Carried s) (hv : Relayed s)
    (hrun : s.primary.status = .running) (hok : Orderly allowed validMethod s (.primary (.cancelSend r)))
    (hreq : s.primary.requests r = some req) (h : s.primary.cancelSend r req = some primary) :
    Live validHeader allowed validMethod { s with primary } := by
  obtain ⟨hawaits, rfl⟩ := cancelSend_cases h
  have hphase : req.response.phase ≠ .over := fun hover => by simp [awaitsStart, hover] at hawaits
  have hpending := pending_of_phase hv hrun hreq hphase
  refine hl.same rfl fun t hturn ht he => ?_
  have hcur := (he.current_of hreq hpending).1
  have hquiet : Quiet allowed s t r := by
    rcases hok hrun t hturn ht req hreq hpending with hstarting | hquiet
    · exact quiet_of_starting he hc hv hturn ht hreq hpending hstarting
    · exact hquiet
  refine he.moves hreq hpending (fun _ => requests_setResponse) he.aborts
    (hcur.reader_moves rfl rfl rfl rfl (fun hsome => absurd (hcur.handling_none (.inr hquiet.2.2.2)) hsome) id fun _ => hquiet)

variable {res : Response}

theorem read_cases {res' : Response} {senders : Bool} (h : res.read senders = some res') :
    (res'.pending = res.pending ∧ res'.startTx = res.startTx ∧ res'.start = res.start ∧
      res'.responseComplete = res.responseComplete ∧ res'.phase = res.phase) ∧ res.phase = .reading ∧
      (.finished ∈ res'.body ∨ res'.outcome = some .eof → .finished ∈ res.body ∨ senders = false) := by
  obtain ⟨⟨hphase, houtcome⟩, h⟩ := ite_none_right_eq_some.mp h
  split at h <;> rename_i hbody
  · cases h
    exact ⟨⟨rfl, rfl, rfl, rfl, rfl⟩, hphase, fun h => .inl (by simpa [hbody, houtcome] using h)⟩
  · cases h
    exact ⟨⟨rfl, rfl, rfl, rfl, rfl⟩, hphase, fun h => .inl (by simpa [hbody] using h)⟩
  · cases h
    exact ⟨⟨rfl, rfl, rfl, rfl, rfl⟩, hphase, fun _ => .inl (by simp [hbody])⟩
  · obtain ⟨hsenders, h⟩ := ite_none_left_eq_some.mp h
    cases h
    exact ⟨⟨rfl, rfl, rfl, rfl, rfl⟩, hphase, fun _ => .inr (by simpa using hsenders)⟩

theorem read (hl : Live validHeader allowed validMethod s) (hv : Relayed s)
    (hrun : s.primary.status = .running) (hreq : s.primary.requests r = some req)
    (h : req.response.read (req.response.pending || !(s.primary.inflight r).isEmpty) = some res) :
    Live validHeader allowed validMethod { s with primary := s.primary.setResponse r req res } := by
  obtain ⟨⟨hsame, htx, hstart, hcomplete, hphase⟩, hreading, hends⟩ := read_cases h
  have hpending := pending_of_phase hv hrun hreq (by simp [hreading])
  have hfinished : .finished ∈ res.body ∨ res.outcome = some .eof → .finished ∈ req.response.body := by
    intro hend
    rcases hends hend with hin | hsenders
    · exact hin
    · simp [hpending] at hsenders
  refine hl.same rfl fun t hturn ht he => ?_
  have hcur := (he.current_of hreq hpending).1
  refine he.moves hreq hpending (fun _ => requests_setResponse) he.aborts
    (hcur.reader_moves hsame htx hstart hcomplete (fun hsome => ?_) (fun hend => .inl (hfinished hend)) fun hover => ?_)
  · have houtcome : res.outcome ≠ some .eof := fun heof => hsome (hcur.finished (.inl (hfinished (.inr heof)))).2
    simp [receiving, hphase, hreading, houtcome]
  · simp [hphase, hreading] at hover

theorem dropReader (hl : Live validHeader allowed validMethod s) (hv : Relayed s) (hrun : s.primary.status = .running)
    (hok : Orderly allowed validMethod s (.primary (.dropReader r))) (hreq : s.primary.requests r = some req)
    (h : s.primary.dropReader r req = some primary) : Live validHeader allowed validMethod { s with primary } := by
  obtain ⟨hphase, hwhich⟩ := dropReader_cases h
  have hpending := pending_of_phase hv hrun hreq (by simp [hphase])
  obtain ⟨hgone, -⟩ | ⟨-, hcomplete, rfl⟩ | ⟨-, hincomplete, rfl⟩ := hwhich
  · simp [hpending] at hgone
  · refine hl.same rfl fun t hturn ht he => ?_
    have hcur := (he.current_of hreq hpending).1
    obtain ⟨hidle, -, hinflight⟩ := hok hrun t hturn ht req hreq hpending
    exact he.frees hreq hpending (fun _ => requests_dropPending) he.aborts (hcur.handling_none (.inr hinflight)) rfl rfl hidle
  · refine hl.same rfl fun t hturn ht he => ?_
    obtain ⟨-, hcomplete, -⟩ := hok hrun t hturn ht req hreq hpending
    simp [hincomplete] at hcomplete

theorem deliver (hl : Live validHeader allowed validMethod s) (h : s.primary.finishBodySend = some primary) :
    Live validHeader allowed validMethod { s with primary } := by
  obtain ⟨hd, req, hhandling, hreq, hwhich⟩ := finishBodySend_cases h
  have hqueue : primary.requestQueue = s.primary.requestQueue := by
    rcases hwhich with ⟨-, rfl⟩ | ⟨-, -, rfl⟩ <;> rfl
  refine hl.same (by simp [Lane.turn, hqueue]) fun t hturn ht he => ?_
  -- the item belongs to the request that has the lane
  have hcurrent : Current validHeader allowed s t hd.requestId req := by
    rcases he.current with ⟨-, hnone, -⟩ | ⟨r, req1, h1, hcur, -⟩
    · simp [hhandling] at hnone
    · obtain ⟨rfl, -⟩ := hcur.handled hd hhandling
      obtain rfl : req1 = req := some.inj (h1.symm.trans hreq)
      exact hcur
  obtain ⟨-, hok, hreceiving, hitem⟩ := hcurrent.handled hd hhandling
  rcases hwhich with ⟨hclosed, -⟩ | ⟨-, -, rfl⟩
  · simp [hreceiving] at hclosed
  refine he.moves hreq hcurrent.pending (fun _ => requests_setResponse) he.aborts ?_
  exact {
    __ := hcurrent
    handled := fun h hh => by simp at hh
    finished := fun hend => by
      refine ⟨?_, rfl⟩
      rcases hend with hin | heof
      · rcases mem_append.mp hin with hold | hnew
        · exact (hcurrent.finished (.inl hold)).1
        · exact hitem.mpr (mem_singleton.mp hnew).symm
      · exact (hcurrent.finished (.inr heof)).1
    quiet := fun hover => by
      have hphase : req.response.phase = .over := hover
      simp [receiving, hphase] at hreceiving }

theorem receiving_of (hphase : res.phase ≠ .over) (houtcome : res.outcome ≠ some .eof) : res.receiving = true := by
  unfold receiving
  split <;> simp_all

theorem receive {up : List Frame} (hl : Live validHeader allowed validMethod s) (hv : Relayed s)
    (hup : s.up = frame :: up) (hidle : s.primary.handling = none) (htaken : Taken validHeader frame s.primary primary) :
    Live validHeader allowed validMethod { s with primary, up } := by
  have hnone : ∀ q, s.primary.inflight q = [] := fun q => by simp [inflight, hidle]
  have hqueue : primary.requestQueue = s.primary.requestQueue := by cases htaken <;> rfl
  refine hl.same (by simp [Lane.turn, hqueue]) fun t hturn ht he => ?_
  -- the answers to other requests stay as they are
  have hother : ∀ {primary : Primary} {r req}, primary.busy = s.primary.busy → primary.handling = s.primary.handling →
      primary.requestQueue = s.primary.requestQueue → r ≠ frame.requestId →
      Current validHeader allowed s t r req → Current validHeader allowed { s with primary, up } t r req := by
    intro primary r req hbusy hhandling hqueue hne hcur
    refine hcur.congr hbusy hhandling ?_ (fun _ => id) fun hquiet => hquiet.mono (fun f hf _ => ?_) (fun f hf _ => ?_) ?_
    · simp [hup, framesOf_cons, Ne.symm hne]
    · rwa [show ({ s with primary, up } : Lane).primary.requestQueue = s.primary.requestQueue from hqueue] at hf
    · rw [hup]
      exact mem_cons_of_mem _ hf
    · exact inflight_eq hhandling
  have hmem : ∀ {req}, Current validHeader allowed s t frame.requestId req → req.response.phase = .over → frame.kind = .error := by
    intro req hcur hover
    exact (hcur.quiet hover).2.2.1 frame (by simp [hup]) rfl
  have hheard : ∀ {req}, Current validHeader allowed s t frame.requestId req →
      ∃ b, req.response.reply.hear validHeader frame = some b := by
    intro req hcur
    obtain ⟨a, ha, -⟩ := hcur.heard
    rw [hup, cons_append, framesOf_cons, if_pos rfl, hearAll_cons] at ha
    obtain ⟨b, hb, -⟩ := bind_eq_some_iff.mp ha
    exact ⟨b, hb⟩
  cases htaken with
  | unknown hunknown =>
    refine he.congr rfl rfl rfl id fun r req hreq hcur => hother rfl rfl rfl ?_ hcur
    rintro rfl
    simp [hunknown] at hreq
  | ignored req hreq hwhy =>
    by_cases hpending : req.response.pending = true
    · -- a pending request ignores nothing that the follower sends
      exfalso
      obtain ⟨hitem, hrefused⟩ := hwhy.resolve_left (by simp [hpending])
      have hcur := (he.current_of hreq hpending).1
      obtain ⟨b, hb⟩ := hheard hcur
      cases hreply : req.response.reply with
      | unheard =>
        rw [hreply] at hb
        rcases hear_unheard hb with ⟨hkind, hvalid, -⟩ | ⟨hkind, -⟩
        · exact hrefused hkind (reply_unheard hreply) hvalid
        · simp [frameItem, hkind] at hitem
      | started =>
        rw [hreply] at hb
        rcases hear_started hb with ⟨hkind, -⟩ | ⟨hkind, -⟩
        all_goals simp [frameItem, hkind] at hitem
      | ended | failed => simp [hreply, hear] at hb
    · have hgone : req.response.pending = false := by simpa using hpending
      exact he.aside hreq hgone (fun _ => requests_setResponse) hgone rfl he.aborts rfl fun r req1 hne hcur =>
        hother rfl rfl rfl hne hcur
  | start req hreq hpending htx start aborts hstart haborts hitem =>
    have hcur := (he.current_of hreq hpending).1
    have hsteady := (hv.views _ req hreq).1
    have hreply := reply_of_tx htx
    -- somebody waits for the start, or the follower sends nothing but an error
    have hwaits : req.response.awaitsStart = true ∨ frame.kind = .error := by
      cases hphase : req.response.phase with
      | starting | awaiting => exact .inl (by simp [awaitsStart, hphase])
      | reading =>
        have hnone : req.response.start = none := hsteady.unsent htx
        have hok : req.response.start = some (.ok ()) := hsteady.started hphase
        simp [hnone] at hok
      | «over» => exact .inr (hmem hcur hphase)
    have hsame : aborts = s.primary.aborts := by
      rcases hwaits with hawaits | herror
      · exact (hstart hawaits).2
      · rcases hitem with ⟨hkind, -⟩ | ⟨-, -, hsame⟩
        · simp [herror] at hkind
        · exact hsame
    have hbefore : ¬ (.finished ∈ req.response.body ∨ req.response.outcome = some .eof) := by
      intro h
      have hdone := (hcur.finished h).1
      simp [hcur.incomplete htx] at hdone
    refine he.moves hreq hpending (fun _ => requests_setResponse) (hsame.trans he.aborts)
      (hcur.hears hup rfl rfl rfl (hnone _) hpending rfl (fun b hb => ?_) (fun h => by simp at h)
        (fun h hh => ?_) hbefore fun hover => ⟨hover, hidle⟩)
    · rw [hreply] at hb
      rcases hear_unheard hb with ⟨hkind, -, rfl⟩ | ⟨hkind, rfl⟩
      · have hawaits := hwaits.resolve_right (by simp [hkind])
        have hok : start = some (.ok ()) := by
          rcases hitem with ⟨-, hok⟩ | ⟨herror, -⟩
          · exact hok hawaits
          · simp [hkind] at herror
        have hincomplete := hcur.incomplete htx
        refine (reply_of_start rfl hok).trans (if_neg ?_)
        exact (Bool.not_eq_true _).mpr hincomplete
      · refine reply_of_failure rfl ?_
        rcases hitem with ⟨hstart, -⟩ | ⟨-, hne, -⟩
        · simp [hkind] at hstart
        · exact hne
    · rw [show s.primary.handling = some h from hh] at hidle
      simp at hidle
  | item req hreq hpending item hitem complete abort hcomplete hmono hlater =>
    have hcur := (he.current_of hreq hpending).1
    obtain ⟨b, hb⟩ := hheard hcur
    have hstarted : req.response.reply = .started := by
      cases hreply : req.response.reply with
      | unheard =>
        rw [hreply] at hb
        rcases hear_unheard hb with ⟨hkind, -, -⟩ | ⟨hkind, -⟩
        · simp [frameItem, hkind] at hitem
        · have htx := reply_unheard hreply
          simp [hlater hkind] at htx
      | started => rfl
      | ended | failed => simp [hreply, hear] at hb
    obtain ⟨htx, hok, hincomplete⟩ := reply_started hstarted
    have hends : complete = true ↔ item = .finished := by
      refine ⟨fun h => (hcomplete h).resolve_left (by simp [hincomplete]), fun h => hmono (.inr h)⟩
    have hkind : frame.kind ≠ .error := by
      rw [hstarted] at hb
      rcases hear_started hb with ⟨hkind, -⟩ | ⟨hkind, -⟩ <;> simp [hkind]
    have hphase : req.response.phase ≠ .over := fun hover => hkind (hmem hcur hover)
    have hbefore : ¬ (.finished ∈ req.response.body ∨ req.response.outcome = some .eof) := by
      intro h
      have hdone := (hcur.finished h).1
      simp [hincomplete] at hdone
    refine he.moves hreq hpending (fun _ => requests_setResponse) he.aborts
      (hcur.hears hup rfl rfl rfl (hnone _) hpending rfl (fun b hb => ?_) (fun h => ?_) (fun h hh => ?_) hbefore
        fun hover => absurd hover hphase)
    · rw [hstarted] at hb
      refine (reply_of_start (by exact htx) (by exact hok)).trans ?_
      rcases hear_started hb with ⟨hkind, rfl⟩ | ⟨hkind, rfl⟩
      · refine if_neg fun hdone => ?_
        obtain rfl := hends.mp hdone
        simp [frameItem, hkind] at hitem
      · refine if_pos (hends.mpr ?_)
        simpa [frameItem, hkind] using hitem.symm
    · have htx' : req.response.startTx = true := h
      simp [htx] at htx'
    · cases hh
      exact ⟨rfl, hok, receiving_of hphase fun heof => hbefore (.inr heof), hends⟩

theorem primary_step {b : PrimaryAct} (hl : Live validHeader allowed validMethod s) (hc : Carried s) (hv : Relayed s)
    (hrun : s.primary.status = .running) (hrun' : primary.status = .running) (hinner : b.isInner = true)
    (hok : Orderly allowed validMethod s (.primary b)) (h : primaryStep validHeader s.primary b = some primary) :
    Live validHeader allowed validMethod { s with primary } := by
  cases b with
  | beginSend method pathAndQuery headers contentLength original reader =>
    exact hl.beginSend hc hv (ite_none_right_eq_some.mp h).2
  | queueStart r =>
    obtain ⟨req, hreq, h⟩ := onRequest_eq_some h
    exact hl.queueStart hc hv hrun hreq h
  | bridge r act =>
    obtain ⟨req, hreq, h⟩ := onRequest_eq_some h
    obtain ⟨reader, -, rfl⟩ := map_eq_some_iff.mp h
    exact hl.bridge hreq
  | sendBody r n =>
    obtain ⟨req, hreq, h⟩ := onRequest_eq_some h
    exact hl.sendBody hreq h
  | reportBody r =>
    obtain ⟨req, hreq, h⟩ := onRequest_eq_some h
    exact hl.reportBody hreq hrun h
  | takeStart r =>
    obtain ⟨req, hreq, h⟩ := onRequest_eq_some h
    exact hl.takeStart hv hrun hreq h
  | timeoutStart r =>
    obtain ⟨req, hreq, h⟩ := onRequest_eq_some h
    exact hl.timeoutStart hv hrun hok hreq h
  | cancelSend r =>
    obtain ⟨req, hreq, h⟩ := onRequest_eq_some h
    exact hl.cancelSend hc hv hrun hok hreq h
  | read r =>
    obtain ⟨req, hreq, h⟩ := onRequest_eq_some h
    obtain ⟨res, hread, rfl⟩ := map_eq_some_iff.mp h
    exact hl.read hv hrun hreq hread
  | dropReader r =>
    obtain ⟨req, hreq, h⟩ := onRequest_eq_some h
    exact hl.dropReader hv hrun hok hreq h
  | sendAbort i =>
    -- there is no such task
    obtain ⟨abort, habort, ⟨hclosed, -⟩ | ⟨-, req, -, rfl⟩⟩ := sendAbort_cases h
    · simp [hrun] at hclosed
    · refine hl.snoc rfl fun t ht he => ?_
      simp [he.aborts] at habort
  | forward | receive frame => simp [PrimaryAct.isInner] at hinner
  | deliver =>
    exact hl.deliver (ite_none_right_eq_some.mp h).2
  | stopLoop =>
    simp only [primaryStep, ite_none_right_eq_some, some.injEq] at h
    obtain ⟨-, rfl⟩ := h
    simp at hrun'
  | unregister | dropQueue =>
    simp only [primaryStep, ite_none_right_eq_some] at h
    simp [hrun] at h

end Live

theorem running_before {b : PrimaryAct} {s : Primary} (h : primaryStep validHeader s b = some primary)
    (hrun : primary.status = .running) : s.status = .running := by
  by_contra hstop
  cases effect h with
  | began hopens h =>
    simp only [beginSend, ite_none_left_eq_some, some.injEq] at h
    obtain ⟨-, rfl⟩ := h
    exact hstop hrun
  | received hrun' | stopped hrun' => exact hstop hrun'
  | unregistered | queueDropped => cases hrun
  | queued | upload | sent | opened | dropped | finished | read | abandoned | abortLost | abortSent | forwarded | undelivered
  | delivered => exact hstop hrun

/-! ### Steps of the follower -/

theorem Live.answers {follower : Follower} (hl : Live validHeader allowed validMethod s)
    (hphase : s.follower.phase.turn = .wait r) (houtbox : s.follower.outbox = [])
    (hturn : follower.phase.turn = t') (ht' : t' = .wait r ∨ t' = .idle)
    (hids : ∀ f ∈ follower.outbox, f.requestId = r)
    (hreply : ∀ a, Answers s.follower (.wait r) r a →
      ∃ b, a.hearAll validHeader follower.outbox = some b ∧ Answers follower t' r b) :
    Live validHeader allowed validMethod { s with follower } := by
  obtain ⟨t, ht, he⟩ := hl
  obtain ⟨hnone, rfl⟩ : s.down ++ s.primary.requestQueue = [] ∧ t = .wait r := by
    rw [Lane.turn, hphase] at ht
    exact Turn.takeAll_wait ht
  refine ⟨t', ?_, fun _ => ?_⟩
  · show follower.phase.turn.takeAll allowed validMethod (s.down ++ s.primary.requestQueue) = some t'
    rw [hnone, hturn]
    rfl
  have he := he (by simp)
  refine he.congr rfl rfl rfl (by simp) fun q req hreq hcur => ?_
  obtain rfl : r = q := by simpa using hcur.turn
  have hinactive : req.upload.task.active = false := by simpa using hcur.sends
  obtain ⟨a, ha, hans⟩ := hcur.heard
  obtain ⟨b, hb, hbans⟩ := hreply a hans
  exact {
    __ := hcur
    turn := by rcases ht' with rfl | rfl <;> simp
    sends := by rcases ht' with rfl | rfl <;> simp [hinactive]
    unstarted := fun h => by simpa using hcur.unstarted h
    heard := by
      refine ⟨b, ?_, hbans⟩
      have hall : framesOf r follower.outbox = follower.outbox := filter_eq_self.mpr (by simpa using hids)
      show hearAll validHeader _ (framesOf r (s.up ++ follower.outbox)) = some b
      rw [houtbox, append_nil] at ha
      rw [framesOf_append, hall, hearAll_append ha]
      exact hb
    quiet := fun h => by simpa using (hcur.quiet h).1 }

variable {f f' : Follower}

theorem Answers.mono (h : Answers f t r a) (haccepted : f'.accepted r = [] → f.accepted r = [])
    (hreading : f'.phase = .reading r ∨ f'.phase = .waiting r →
      f.phase = .reading r ∨ f.phase = .waiting r ∨ f.accepted r = [])
    (hresponding : f'.phase = .responding r → f.phase = .responding r)
    (hdraining : f'.phase = .draining r → f.phase = .draining r) : Answers f' t r a where
  unheard hempty := h.unheard (haccepted hempty)
  reading hphase := by
    rcases hreading hphase with hold | hold | hempty
    · exact h.reading (.inl hold)
    · exact h.reading (.inr hold)
    · exact h.unheard hempty
  responding hphase := h.responding (hresponding hphase)
  draining hphase := h.draining (hdraining hphase)
  failed := h.failed

theorem framesOf_ids {frames : List Frame} (h : ∀ f ∈ frames, f.requestId = q) (hne : q ≠ r) : framesOf r frames = [] := by
  refine filter_eq_nil_iff.mpr fun f hf hid => hne ?_
  rw [← h f hf]
  simpa using hid

theorem answers_take (htakes : Takes f frame f') (hphase : f'.phase.isStopped = false)
    (hout : f'.outbox = f.outbox ∨ f.phase = .idle ∧ frame.forbidden allowed ∧ f'.phase = .draining frame.requestId ∧
      f'.outbox = errorResponseFrames frame.requestId 403 forbiddenTunnelTargetBody)
    (houtbox : f.outbox = []) (hnew : frame.kind = .requestStart → f.accepted frame.requestId = [])
    (hans : Answers f t r a) : ∃ b, a.hearAll validHeader (framesOf r f'.outbox) = some b ∧ Answers f' t r b := by
  have hgrows : ∀ {g : Follower}, g.accepted = (f.accept frame.requestId frame).accepted → g.accepted r = [] →
      f.accepted r = [] := by
    intro g hg hempty
    rw [hg] at hempty
    by_contra hne
    exact Relayed.accept_grows hne hempty
  rcases hout with hsame | ⟨hidle, hforbidden, hdraining, hrefusal⟩
  · refine ⟨a, by rw [hsame, houtbox]; rfl, ?_⟩
    cases htakes with
    | stops f' hstop => simp [hstop] at hphase
    | starts hidle hkind =>
      refine hans.mono (hgrows rfl) (fun h => ?_) (by simp) (by simp)
      obtain rfl : frame.requestId = r := by simpa using h
      exact .inr (.inr (hnew hkind))
    | refuses hidle hkind =>
      rw [houtbox] at hsame
      simp [errorResponseFrames] at hsame
    | body l l' hreading | drains =>
      exact hans.mono (hgrows rfl) (fun h => h.imp_right .inl) id id
    | ends l hreading =>
      refine hans.mono (hgrows rfl) (fun h => .inl ?_) (by simp) (by simp)
      obtain rfl : frame.requestId = r := by simpa using h
      exact hreading
    | cancelled | drained => exact hans.mono (hgrows rfl) (by simp) (by simp) (by simp)
  · rw [hrefusal]
    have haccepted : ∀ q, q ≠ frame.requestId → f'.accepted q = [] → f.accepted q = [] := by
      intro q hne hempty
      cases htakes with
      | stops f' hstop => simp [hstop] at hphase
      | refuses => simpa [accept, hne] using hempty
      | _ => simp_all
    by_cases hid : frame.requestId = r
    · subst hid
      have hall : framesOf frame.requestId (errorResponseFrames frame.requestId 403 forbiddenTunnelTargetBody) =
          errorResponseFrames frame.requestId 403 forbiddenTunnelTargetBody :=
        filter_eq_self.mpr fun f hf => by simpa using errorResponse_ids hf
      obtain rfl := hans.unheard (hnew hforbidden.1)
      refine ⟨.ended, ?_, ⟨fun hempty => ?_, by simp [hdraining], by simp [hdraining], fun _ => rfl, by simp⟩⟩
      · rw [hall]
        exact hearAll_refused (by simp) (by simp) _
      · cases htakes with
        | stops f' hstop => simp [hstop] at hphase
        | refuses => exact absurd hempty (Relayed.accept_own _ _)
        | _ => simp_all
    · refine ⟨a, by rw [framesOf_ids (fun f hf => errorResponse_ids hf) hid]; rfl, ?_⟩
      exact hans.mono (haccepted r (Ne.symm hid)) (by simp [hdraining]) (by simp [hdraining]) (by simp [hdraining, hid])

theorem Live.take {follower : Follower} {down : List Frame} (hl : Live validHeader allowed validMethod s) (hc : Carried s)
    (hdown : s.down = frame :: down) (houtbox : s.follower.outbox = [])
    (hhosted : ∀ r, s.follower.phase = .reading r → s.follower.locals r ≠ none)
    (htake : s.follower.take allowed validMethod frame = some follower) :
    Live validHeader allowed validMethod { s with follower, down } := by
  obtain ⟨t, hturn, he⟩ := hl
  have hall : s.follower.phase.turn.takeAll allowed validMethod (frame :: (down ++ s.primary.requestQueue)) = some t := by
    simpa [Lane.turn, hdown] using hturn
  obtain ⟨t1, ht1, hrest⟩ := bind_eq_some_iff.mp (Turn.takeAll_cons.symm.trans hall)
  obtain ⟨hphase, -, hout⟩ := take_turn htake hhosted ht1
  refine ⟨t, by simpa [Lane.turn, hphase] using hrest, fun ht => ?_⟩
  have hrun : follower.phase.isStopped = false := by
    by_contra hstop
    rw [← hphase, turn_of_stopped (by simpa using hstop), Turn.takeAll_gone] at hrest
    exact ht (some.inj hrest).symm
  have hserving : s.follower.phase.isStopped = false := by
    by_contra hstop
    cases hp : s.follower.phase with
    | stopped exit => simp [Follower.take, hp] at htake
    | _ => simp [hp, isStopped] at hstop
  refine (he ht).congr rfl rfl rfl id fun r req hreq hcur => ?_
  obtain ⟨a, ha, hans⟩ := hcur.heard
  rw [houtbox, append_nil] at ha
  obtain ⟨b, hb, hbans⟩ := answers_take (take_takes htake) hrun hout houtbox (hc.start_is_new hdown hserving) hans
  exact {
    __ := hcur
    heard := by
      refine ⟨b, ?_, hbans⟩
      show hearAll validHeader _ (framesOf r (s.up ++ follower.outbox)) = some b
      rw [framesOf_append, hearAll_append ha]
      exact hb
    quiet := fun hover => by
      obtain ⟨hidle, hforbidden, herror, hnone⟩ := hcur.quiet hover
      refine ⟨hidle, fun f hf => hforbidden f ?_, fun f hf hid => ?_, hnone⟩
      · rw [hdown]
        exact mem_cons_of_mem _ hf
      · rcases mem_append.mp hf with hold | hnew
        · exact herror f (mem_append.mpr (.inl hold)) hid
        · have hnew : f ∈ follower.outbox := hnew
          rcases hout with hsame | ⟨-, hrefused, -, hrefusal⟩
          · rw [hsame, houtbox] at hnew
            simp at hnew
          · -- the start that the follower refuses would be the request's own
            rw [hrefusal] at hnew
            exact absurd hrefused (hforbidden frame (by simp [hdown]) ((errorResponse_ids hnew).symm.trans hid)) }

/-- What a step of the follower that takes no frame does to the exchange. -/
inductive Acted (validHeader : String × String → Bool) (f f' : Follower) : Prop
  | aside (hphase : f'.phase = f.phase) (houtbox : f'.outbox = f.outbox) (haccepted : f'.accepted = f.accepted)
      (hlocals : ∀ r, f.locals r ≠ none → f'.locals r ≠ none)
  | gone (exit : LaneExit) (hphase : f'.phase = .stopped exit) (hexit : ∀ message, exit ≠ .violation message)
  | answers (r : ℕ) (t : Turn) (hphase : f.phase.turn = .wait r) (houtbox : f.outbox = [])
      (hsound : ∀ q, f'.phase ≠ .reading q) (hturn : f'.phase.turn = t) (ht : t = .wait r ∨ t = .idle)
      (hids : ∀ g ∈ f'.outbox, g.requestId = r)
      (hreply : ∀ a, Answers f (.wait r) r a → ∃ b, a.hearAll validHeader f'.outbox = some b ∧ Answers f' t r b)

theorem act_acted {b : FollowerAct} (hserving : ∀ r, f.phase.request = some r → f.accepted r ≠ [])
    (h : f.act validHeader b = some f') : Acted validHeader f f' := by
  cases b with simp only [act] at h
  | localResponse status headers contentLength =>
    split at h
    · rename_i r hphase houtbox
      obtain ⟨⟨hlow, hhigh, hheaders⟩, h⟩ := ite_none_right_eq_some.mp h
      cases h
      have haccepted := hserving r (by rw [hphase]; rfl)
      refine .answers r (.wait r) (by rw [hphase]; rfl) houtbox (by simp) rfl (.inl rfl) (by simp) fun a hans => ?_
      obtain rfl := hans.reading (.inr hphase)
      refine ⟨.started, ?_, ⟨fun h => absurd h haccepted, by simp, by simp, by simp, by simp⟩⟩
      simp [hear, hlow, hhigh]
      simpa using hheaders
    · simp at h
  | localFailure message =>
    split at h
    · rename_i r hphase houtbox
      cases h
      have haccepted := hserving r (by rw [hphase]; rfl)
      refine .answers r .idle (by rw [hphase]; rfl) houtbox (by simp) rfl (.inr rfl) (by simp [Frame.ofError]) fun a hans => ?_
      obtain rfl := hans.reading (.inr hphase)
      exact ⟨.failed, rfl, ⟨fun h => absurd h haccepted, by simp, by simp, by simp, fun _ => rfl⟩⟩
    · simp at h
  | localChunk bytes =>
    split at h
    · rename_i r hphase houtbox
      cases h
      have haccepted := hserving r (by rw [hphase]; rfl)
      refine .answers r (.wait r) (by rw [hphase]; rfl) houtbox (by simp [hphase]) (by rw [hphase]; rfl) (.inl rfl)
        (fun g hg => ?_) fun a hans => ?_
      · obtain ⟨chunk, -, rfl⟩ := List.mem_map.mp hg
        rfl
      · obtain rfl := hans.responding hphase
        exact ⟨.started, hearAll_chunks bytes,
          ⟨fun h => absurd h haccepted, by simp [hphase], fun _ => rfl, by simp [hphase], by simp⟩⟩
    · simp at h
  | localEnd =>
    split at h
    · rename_i r hphase houtbox
      cases h
      have haccepted := hserving r (by rw [hphase]; rfl)
      refine .answers r .idle (by rw [hphase]; rfl) houtbox (by simp) rfl (.inr rfl) (by simp [Frame.responseEnd]) fun a hans => ?_
      obtain rfl := hans.responding hphase
      exact ⟨.ended, rfl, ⟨fun h => absurd h haccepted, by simp, by simp, by simp, by simp⟩⟩
    · simp at h
  | localError message =>
    split at h
    · cases h
      exact .gone _ rfl (by simp)
    · simp at h
  | leave =>
    split at h
    · cases h
      exact .gone _ rfl (by simp)
    · simp at h
    · cases h
      exact .gone _ rfl (by simp)
  | readLocal r | endLocal r | dropLocal r =>
    split at h
    · cases h
      refine .aside rfl rfl rfl fun q hq => ?_
      by_cases hid : q = r
      · simp [setLocal, hid]
      · simpa [setLocal, hid] using hq
    · simp at h

namespace Disciplined

theorem of_live (hd : Disciplined validHeader allowed validMethod s) (hfollower : s'.follower = s.follower)
    (hdown : s'.down = s.down)
    (hlive : s'.primary.status = .running → Live validHeader allowed validMethod s') :
    Disciplined validHeader allowed validMethod s' where
  sound := by
    rw [hfollower]
    exact hd.sound
  hosted := by
    rw [hfollower]
    exact hd.hosted
  safe := by
    rw [hfollower, hdown]
    exact hd.safe
  live := hlive

/-- **Step lemma.** -/
theorem step {a : LaneAct} (hd : Disciplined validHeader allowed validMethod s) (hc : Carried s) (hv : Relayed s)
    (hok : Orderly allowed validMethod s a) (h : laneStep validHeader allowed validMethod s a = some s') :
    Disciplined validHeader allowed validMethod s' := by
  cases a with simp only [laneStep] at h
  | primary b =>
    obtain ⟨hinner, h⟩ := ite_none_right_eq_some.mp h
    obtain ⟨primary, hstep, rfl⟩ := map_eq_some_iff.mp h
    refine hd.of_live rfl rfl fun hrun' => ?_
    have hrun := running_before hstep hrun'
    exact (hd.live hrun).primary_step hc hv hrun hrun' hinner hok hstep
  | forward =>
    split at h
    · simp at h
    · rename_i frame rest hqueue
      obtain ⟨primary, hstep, rfl⟩ := map_eq_some_iff.mp h
      simp only [primaryStep, ite_none_right_eq_some, some.injEq] at hstep
      obtain ⟨⟨hrun, -⟩, rfl⟩ := hstep
      obtain ⟨t, hturn, he⟩ := hd.live hrun
      rw [Lane.turn, hqueue, append_cons] at hturn
      refine ⟨hd.sound, hd.hosted, Turn.takeAll_left hturn, fun _ => ⟨t, ?_, fun ht => ?_⟩⟩
      · simpa [Lane.turn, hqueue] using hturn
      · refine (he ht).congr rfl rfl rfl id fun r req hreq hcur => ?_
        refine hcur.congr rfl rfl rfl (fun _ => id) fun hquiet => hquiet.mono (fun f hf _ => ?_) (fun f hf _ => hf) rfl
        simpa [hqueue] using hf
  | receive =>
    split at h
    · simp at h
    · rename_i frame up hup
      obtain ⟨primary, hstep, rfl⟩ := map_eq_some_iff.mp h
      simp only [primaryStep, ite_none_right_eq_some, some.injEq] at hstep
      obtain ⟨⟨hrun, hidle⟩, rfl⟩ := hstep
      exact hd.of_live rfl rfl fun _ => (hd.live hrun).receive hv hup hidle (takeFrame_taken validHeader s.primary frame)
  | flush =>
    split at h
    · simp at h
    · rename_i frame outbox houtbox
      split at h
      · simp at h
      · cases h
        refine ⟨hd.sound, hd.hosted, hd.safe, fun hrun => (hd.live hrun).same rfl fun t hturn ht he => ?_⟩
        have hsame : s.up ++ [frame] ++ outbox = s.up ++ s.follower.outbox := by simp [houtbox]
        refine he.congr rfl rfl rfl id fun r req hreq hcur => ?_
        refine hcur.congr rfl rfl (congrArg (framesOf r) hsame)
          (fun a hans => ⟨hans.unheard, hans.reading, hans.responding, hans.draining, hans.failed⟩)
          fun hquiet => hquiet.mono (fun f hf _ => hf) (fun f hf _ => hsame ▸ hf) rfl
  | take =>
    split at h
    · rename_i frame down hdown houtbox
      obtain ⟨follower, htake, rfl⟩ := map_eq_some_iff.mp h
      obtain ⟨t, hsafe⟩ := hd.safe
      rw [hdown, Turn.takeAll_cons] at hsafe
      obtain ⟨t1, ht1, hrest⟩ := bind_eq_some_iff.mp hsafe
      obtain ⟨hphase, hsound, -⟩ := take_turn htake hd.hosted ht1
      refine ⟨hsound, fun r hr => ?_, ⟨t, by rw [← hrest, ← hphase]⟩,
        fun hrun => (hd.live hrun).take hc hdown houtbox hd.hosted htake⟩
      cases take_takes htake with
      | stops f' hstop =>
        have hreading : follower.phase = .reading r := hr
        simp [hreading, isStopped] at hstop
      | starts =>
        obtain rfl : frame.requestId = r := by simpa using hr
        simp [setLocal]
      | refuses | ends | cancelled | drained => simp at hr
      | body l l' hreading =>
        obtain rfl : frame.requestId = r := by simpa [setLocal, accept, hreading] using hr
        simp [setLocal]
      | drains hdraining => simp [accept, hdraining] at hr
    · simp at h
  | follower b =>
    obtain ⟨follower, hact, rfl⟩ := map_eq_some_iff.mp h
    obtain ⟨t, hsafe⟩ := hd.safe
    cases act_acted hv.serving hact with
    | aside hphase houtbox haccepted hlocals =>
      refine ⟨fun message hm => hd.sound message (hphase ▸ hm), fun r hr => hlocals r (hd.hosted r (hphase ▸ hr)),
        ⟨t, by rw [← hsafe, ← hphase]⟩, fun hrun => (hd.live hrun).same (by simp [Lane.turn, hphase]) fun t hturn ht he => ?_⟩
      refine he.congr rfl rfl rfl id fun r req hreq hcur => ?_
      refine hcur.congr rfl rfl (by simp [houtbox]) (fun a hans => ?_) fun hquiet =>
        hquiet.mono (fun f hf _ => hf) (fun f hf _ => by simpa [houtbox] using hf) rfl
      exact hans.mono (fun h => haccepted ▸ h) (fun h => by rw [hphase] at h; exact h.imp_right .inl)
        (fun h => hphase ▸ h) fun h => hphase ▸ h
    | gone exit hphase hexit =>
      refine ⟨fun message hm => hexit message ?_, fun r hr => ?_, ⟨.gone, ?_⟩, fun _ => ⟨.gone, ?_, by simp⟩⟩
      · simpa [hphase] using hm
      · simp [hphase] at hr
      · show follower.phase.turn.takeAll allowed validMethod s.down = _
        rw [hphase]
        exact Turn.takeAll_gone
      · show follower.phase.turn.takeAll allowed validMethod _ = _
        rw [hphase]
        exact Turn.takeAll_gone
    | answers r t' hphase houtbox hreading hturn ht' hids hreply =>
      refine ⟨fun message hm => ?_, fun q hq => absurd hq (hreading q), ⟨t', ?_⟩,
        fun hrun => (hd.live hrun).answers hphase houtbox hturn ht' hids hreply⟩
      · rw [hm] at hturn
        rcases ht' with rfl | rfl <;> simp [turn] at hturn
      · rw [hphase] at hsafe
        obtain ⟨hnone, -⟩ := Turn.takeAll_wait hsafe
        show follower.phase.turn.takeAll allowed validMethod s.down = _
        rw [hnone, hturn]
        rfl

end Disciplined

end Laws

/-! ### Whole runs -/

theorem disciplined_of_reach {validHeader : String × String → Bool} {allowed validMethod : String → Bool} {s : Lane}
    (h : (lane validHeader allowed validMethod).Reach (Orderly allowed validMethod) {} s) :
    Disciplined validHeader allowed validMethod s := by
  refine Lts.Reach.strengthen (J := fun s => Carried s ∧ Relayed s)
    (fun h => ⟨carried_of_reach h, relayed_of_reach h⟩) ?_ ?_ h
  · refine ⟨by simp, by simp, ⟨.idle, rfl⟩, fun _ => ⟨.idle, rfl, fun _ => ⟨rfl, by simp, .inl ⟨rfl, rfl, by simp⟩⟩⟩⟩
  · intro s s' a hd ⟨hc, hv⟩ _ hok hstep
    exact hd.step hc hv hok hstep

/-- **Lane discipline.** As long as the primary gives up a request only when the follower is done with it, the follower never
closes the lane over a frame, it accepts for a request what was queued for it and in that order, and what the reader of a
response gets is what the follower wrote for that request. -/
theorem lane_disciplined {validHeader : String × String → Bool} {allowed validMethod : String → Bool} {s : Lane}
    (h : (lane validHeader allowed validMethod).Reach (Orderly allowed validMethod) {} s) :
    (∀ message, s.follower.phase ≠ .stopped (.violation message)) ∧
      (∀ r, s.follower.accepted r <+: s.primary.sentOf r) ∧
        ∀ r req, s.primary.requests r = some req → req.response.got <+: payload .responseBody (s.follower.sent r) :=
  ⟨(disciplined_of_reach h).sound, (carried_of_reach h).wired.accepted, fun _ _ hreq => got_of_sent (relayed_of_reach h) hreq⟩

/-- A request without a body, and its answer up to the start of the response. -/
def answered : List LaneAct :=
  [.primary (.beginSend "GET" "/object" [] none ⟨[], .clean⟩ (.direct ⟨[], .clean⟩)), .primary (.queueStart 0),
    .primary (.sendBody 0 1), .forward, .forward, .take, .take, .follower (.localResponse 200 [] none), .flush, .receive,
    .primary (.takeStart 0)]

/-- The rest of the answer, and the end of the reader. -/
def readToEnd : List LaneAct :=
  [.follower (.localChunk [7]), .flush, .receive, .primary .deliver, .follower .localEnd, .flush, .receive,
    .primary .deliver, .primary (.read 0), .primary (.read 0), .primary (.dropReader 0)]

theorem lane_disciplined_one_answer :
    ∃ s req, (lane (fun _ => true) (fun _ => true) fun _ => true).Reach (Orderly (fun _ => true) fun _ => true) {} s ∧
      s.primary.requests 0 = some req ∧ req.response.got = [7] ∧ s.primary.busy = false ∧
      (∀ message, s.follower.phase ≠ .stopped (.violation message)) ∧
        (∀ r, s.follower.accepted r <+: s.primary.sentOf r) ∧
          ∀ r req, s.primary.requests r = some req → req.response.got <+: payload .responseBody (s.follower.sent r) := by
  have hrun : (((lane (fun _ => true) (fun _ => true) fun _ => true).run (Orderly (fun _ => true) fun _ => true)
      (answered ++ readToEnd) {}).bind fun s => (s.primary.requests 0).map fun req => (req.response.got, s.primary.busy)) =
        some ([7], false) := by decide
  obtain ⟨s, hs, hreq⟩ := bind_eq_some_iff.mp hrun
  obtain ⟨req, hreq, hgot, hbusy⟩ := map_pair_eq_some hreq
  have hreach := Lts.reach_of_run hs
  exact ⟨s, req, hreach, hreq, hgot, hbusy, lane_disciplined hreach⟩

/-- The reader is dropped before the end of the response. The follower is in the middle of its answer when the error frame
comes, and closes the lane. -/
theorem reader_drop_violates :
    ¬ ∀ (s : Lane), (lane (fun _ => true) (fun _ => true) fun _ => true).Reach Lts.free {} s →
      (∀ message, s.follower.phase ≠ .stopped (.violation message)) ∧
        (∀ r, s.follower.accepted r <+: s.primary.sentOf r) ∧
          ∀ r req, s.primary.requests r = some req → req.response.got <+: payload .responseBody (s.follower.sent r) := by
  intro hall
  have hrun : ((lane (fun _ => true) (fun _ => true) fun _ => true).run Lts.free
      (answered ++ [.primary (.dropReader 0), .primary (.sendAbort 0), .forward, .take]) {}).map (fun s => s.follower.phase) =
        some (.stopped (.violation
          "reverse tunnel streaming lane received interleaved request while sending local response")) := by
    decide
  obtain ⟨s, hs, hphase⟩ := map_eq_some_iff.mp hrun
  exact (hall s (Lts.reach_of_run hs)).1 _ hphase

end AsterDrive.Tunnel
