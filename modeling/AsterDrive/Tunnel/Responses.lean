import AsterDrive.Tunnel.Registry

/-!
# Tunnel/Responses — a response that ends cleanly is complete

The follower may send any frames and the lane may stop at any time. `View` is what the response side of
one request sees of the registry, `ViewStep` is everything that a step of the registry can do to it
(`view_step`), and `Good` is the invariant: what was read, what is in the body channel and the item in
flight are, in this order, what the received frames stand for.

When the lane is lost the error is put into the body channel with `try_send`, and a reader takes a closed
channel for the end of the response. If the channel is full the error is lost, and the reader ends cleanly
after a part of the response (`clean_end_truncated`). As long as this does not happen a clean end is the end
(`clean_end_complete`).
-/

namespace AsterDrive.Tunnel

open List Option Primary Response BodyItem

/-! ### One request's view of the registry -/

structure View where
  running : Bool
  response : Response
  inflight : List BodyItem

def Primary.view (s : Primary) (r : ℕ) (req : Request) : View := ⟨s.status = .running, req.response, s.inflight r⟩

/-- What a received frame puts into the body channel. -/
def frameItem (frame : Frame) : Option BodyItem :=
  match frame.kind with
  | .responseBody => some (.chunk frame.body)
  | .responseEnd => some .finished
  | .error => some (.failure (errorMessage frame))
  | _ => none

/-- The items that received frames stand for. -/
def itemsOf (frames : List Frame) : List BodyItem := frames.filterMap frameItem

@[simp] theorem itemsOf_append (fs gs : List Frame) : itemsOf (fs ++ gs) = itemsOf fs ++ itemsOf gs := by
  simp [itemsOf]

/-- The response after the lane loop took a frame of it, and the item in flight then. -/
inductive Accepts (frame : Frame) (res : Response) : Response → List BodyItem → Prop
  | ignored (h : res.pending = false ∨ frameItem frame = none) : Accepts frame res (res.logged frame) []
  | start (start : Option (Except String Unit)) (hpending : res.pending = true) (htx : res.startTx = true)
      (hstart : res.awaitsStart = true → start.isSome)
      (hkind : frame.kind ≠ .responseBody) (hitem : start = some (.ok ()) → frameItem frame = none) :
      Accepts frame res { res.logged frame with startTx := false, start := start } []
  | item (item : BodyItem) (complete : Bool) (hpending : res.pending = true) (hitem : frameItem frame = some item)
      (hcomplete : complete = true → res.responseComplete = true ∨ item = .finished) :
      Accepts frame res { res.logged frame with responseComplete := complete } [item]

/-- Everything that the step `a` of the registry can do to the view of one request. -/
inductive ViewStep (a : PrimaryAct) : View → View → Prop
  | same (v : View) : ViewStep a v v
  | queued (v : View) (h : v.response.phase = .starting) : ViewStep a v { v with response.phase := .awaiting }
  | opened (v : View) (hphase : v.response.phase = .awaiting) (h : v.response.start = some (.ok ())) : ViewStep a v { v with response.phase := .reading }
  | gaveUp (v : View) (pending : Bool) : ViewStep a v { v with response.phase := .over, response.pending := pending }
  | read (v : View) (res : Response) (h : v.response.read (v.response.pending || !v.inflight.isEmpty) = some res) :
      ViewStep a v { v with response := res }
  | received (v : View) (frame : Frame) (res : Response) (items : List BodyItem) (hact : a = .receive frame)
      (hrun : v.running = true) (hidle : v.inflight = []) (h : Accepts frame v.response res items) :
      ViewStep a v { v with response := res, inflight := items }
  | delivered (v : View) (item : BodyItem) (hitem : v.inflight = [item]) (hreceiving : v.response.receiving = true) :
      ViewStep a v { v with response.body := v.response.body ++ [item], inflight := [] }
  | undelivered (v : View) (h : v.response.receiving = false) : ViewStep a v { v with inflight := [] }
  | stopped (v : View) : ViewStep a v { v with running := false, inflight := [] }
  | failed (v : View) (message : String) (hact : a = .unregister) (h : v.running = false) :
      ViewStep a v { v with response := v.response.failFor message }

namespace Primary

variable {s : Primary} {r r' : ℕ} {req : Request} {res : Response} {frame : Frame}

@[simp] theorem requests_setRequest :
    (s.setRequest r req).requests r' = if r' = r then some req else s.requests r' := by
  by_cases h : r' = r
  · subst h
    simp [setRequest]
  · simp [setRequest, h]

@[simp] theorem requests_setResponse :
    (s.setResponse r req res).requests r' = if r' = r then some { req with response := res } else s.requests r' :=
  requests_setRequest

@[simp] theorem requests_enqueue :
    (s.enqueue r req frame).requests r' =
      if r' = r then some { req with upload.sent := req.upload.sent ++ [frame] } else s.requests r' :=
  requests_setRequest

@[simp] theorem requests_dropPending :
    (s.dropPending r req).requests r' =
      if r' = r then some { req with response := req.response.removePending } else s.requests r' :=
  requests_setRequest

end Primary

section Views

variable {validHeader : String × String → Bool} {s s' : Primary} {r r1 : ℕ} {req req1 req1' : Request} {a : PrimaryAct}

/-- Where the view of a request comes from: the same request before the step, or it has just begun. -/
def Stepped (a : PrimaryAct) (s s' : Primary) (r : ℕ) (req' : Request) : Prop :=
  (∃ req, s.requests r = some req ∧ ViewStep a (s.view r req) (s'.view r req')) ∨
    s.requests r = none ∧ req'.response = {} ∧ s'.inflight r = []

theorem stepped_of_set (hreq : s'.requests r = some req) (h1 : s.requests r1 = some req1)
    (hset : ∀ r', s'.requests r' = if r' = r1 then some req1' else s.requests r')
    (hstatus : s'.status = s.status) (hhandling : s'.handling = s.handling)
    (hv : ∀ v : View, v.response = req1.response → v.inflight = s.inflight r1 →
      ViewStep a v { v with response := req1'.response }) :
    Stepped a s s' r req := by
  have hview : ∀ req0, s'.view r req = { s.view r req0 with response := req.response } := by
    intro req0
    simp [view, inflight, hstatus, hhandling]
  rw [hset] at hreq
  split_ifs at hreq with hid
  · subst hid
    cases hreq
    refine .inl ⟨req1, h1, ?_⟩
    rw [hview req1]
    exact hv _ rfl rfl
  · refine .inl ⟨req, hreq, ?_⟩
    rw [hview req]
    exact .same _

theorem viewStep_same (hstatus : s'.status = s.status) (hfl : s'.inflight r = s.inflight r) :
    ViewStep a (s.view r req) (s'.view r req) := by
  have hview : s'.view r req = s.view r req := by simp [view, hstatus, hfl]
  rw [hview]
  exact .same _

theorem gaveUp_removed {fl : List BodyItem} (v : View) (hres : v.response = req.response) (_ : v.inflight = fl) :
    ViewStep a v { v with response := req.response.finish.removePending } := by
  rw [← hres]
  exact .gaveUp v false

theorem gaveUp_finished {fl : List BodyItem} (v : View) (hres : v.response = req.response) (_ : v.inflight = fl) :
    ViewStep a v { v with response := req.response.finish } := by
  rw [← hres]
  exact .gaveUp v v.response.pending

theorem inflight_of_handling {h : Handling} (hs : s.handling = some h) :
    s.inflight r = if h.requestId = r then [h.item] else [] := by
  simp [inflight, hs]

/-- A response start that is not refused. -/
def validStart (validHeader : String × String → Bool) (frame : Frame) : Prop :=
  ∃ status, frame.status = some status ∧ 100 ≤ status ∧ status < 1000 ∧ frame.headers.all validHeader = true

theorem acceptStart_cases (validHeader : String × String → Bool) (s : Primary) (req : Request) (frame : Frame) :
    ((acceptStart validHeader s req frame).1 = s ∧ (req.response.startTx = true → ¬ validStart validHeader frame)) ∨
    req.response.startTx = true ∧ ∃ start aborts,
        (req.response.awaitsStart = true → start = some (.ok ()) ∧ aborts = s.aborts) ∧
        (∀ abort ∈ aborts, abort ∈ s.aborts ∨ abort.requestId = frame.requestId) ∧
        (acceptStart validHeader s req frame).1 =
          { s.setResponse frame.requestId req { req.response with startTx := false, start := start } with aborts } := by
  unfold acceptStart
  cases hframe : frame.status with
  | none =>
    refine .inl ⟨rfl, ?_⟩
    rintro - ⟨status, hsome, -⟩
    simp [hframe] at hsome
  | some status =>
    dsimp only
    split_ifs with hstatus hheaders htx hawaits
    · refine .inl ⟨rfl, ?_⟩
      rintro - ⟨status', hsome, hlow, hhigh, -⟩
      obtain rfl : status = status' := some.inj (hframe.symm.trans hsome)
      omega
    · refine .inl ⟨rfl, ?_⟩
      rintro - ⟨-, -, -, -, hall⟩
      simp [hall] at hheaders
    · exact .inl ⟨rfl, fun h => by simp [h] at htx⟩
    · exact .inr ⟨by simpa using htx, some (.ok ()), s.aborts, fun _ => ⟨rfl, rfl⟩, fun _ => .inl, rfl⟩
    · refine .inr ⟨by simpa using htx, req.response.start, _, fun h => absurd h hawaits, fun abort hmem => ?_, rfl⟩
      rcases mem_append.mp hmem with hold | hnew
      · exact .inl hold
      · exact .inr (by rw [mem_singleton.mp hnew])

/-- Everything that the lane loop can do with a frame. -/
inductive Taken (validHeader : String × String → Bool) (frame : Frame) (s : Primary) : Primary → Prop
  | unknown (h : s.requests frame.requestId = none) : Taken validHeader frame s s
  | ignored (req : Request) (hreq : s.requests frame.requestId = some req)
      (h : req.response.pending = false ∨ frameItem frame = none ∧
        (frame.kind = .responseStart → req.response.startTx = true → ¬ validStart validHeader frame)) :
      Taken validHeader frame s (s.setResponse frame.requestId req (req.response.logged frame))
  | start (req : Request) (hreq : s.requests frame.requestId = some req) (hpending : req.response.pending = true)
      (htx : req.response.startTx = true) (start : Option (Except String Unit)) (aborts : List Abort)
      (hstart : req.response.awaitsStart = true → start.isSome ∧ aborts = s.aborts)
      (haborts : ∀ abort ∈ aborts, abort ∈ s.aborts ∨ abort.requestId = frame.requestId)
      (hitem : frame.kind = .responseStart ∧ (req.response.awaitsStart = true → start = some (.ok ())) ∨
        frame.kind = .error ∧ start ≠ some (.ok ()) ∧ aborts = s.aborts) :
      Taken validHeader frame s { s.setResponse frame.requestId req
        { req.response.logged frame with startTx := false, start := start } with aborts }
  | item (req : Request) (hreq : s.requests frame.requestId = some req) (hpending : req.response.pending = true)
      (item : BodyItem) (hitem : frameItem frame = some item) (complete : Bool) (abort : Option String)
      (hcomplete : complete = true → req.response.responseComplete = true ∨ item = .finished)
      (hmono : req.response.responseComplete = true ∨ item = .finished → complete = true)
      (hlater : frame.kind = .error → req.response.startTx = false) :
      Taken validHeader frame s { s.setResponse frame.requestId req
        { req.response.logged frame with responseComplete := complete } with
        handling := some ⟨frame.requestId, item, abort⟩ }

theorem takeFrame_taken (validHeader : String × String → Bool) (s : Primary) (frame : Frame) :
    Taken validHeader frame s (s.takeFrame validHeader frame) := by
  unfold takeFrame completeStreamFrame
  cases hreq : s.requests frame.requestId with
  | none =>
    have hlog : s.logReceived frame = s := by simp [logReceived, hreq]
    rw [hlog, hreq]
    exact .unknown hreq
  | some req =>
    set logged : Request := { req with response := req.response.logged frame } with hlogged
    have hlooked : (s.setRequest frame.requestId logged).requests frame.requestId = some logged := by simp
    -- a second write of the request replaces the first
    have htwice : ∀ res, (s.setRequest frame.requestId logged).setResponse frame.requestId logged res =
        s.setResponse frame.requestId req res := by
      intro res
      simp [setResponse, setRequest, hlogged]
    have hlog : s.logReceived frame = s.setRequest frame.requestId logged := by
      simp [logReceived, setResponse, hreq, hlogged]
    rw [hlog, hlooked]
    by_cases hpending : req.response.pending = true
    · rw [filter_some_pos (by exact hpending)]
      unfold acceptFrame
      cases hkind : frame.kind with dsimp only
      | responseStart =>
        rcases acceptStart_cases validHeader (s.setRequest frame.requestId logged) logged frame with
          ⟨hsame, hrefused⟩ | ⟨htx, start, aborts, hsome, haborts, hset⟩
        · rw [hsame]
          exact .ignored req hreq (.inr ⟨by simp [frameItem, hkind], fun _ => hrefused⟩)
        · rw [hset, htwice]
          exact .start req hreq hpending htx start aborts (fun h => ⟨by simp [(hsome h).1], (hsome h).2⟩) haborts
            (.inl ⟨hkind, fun h => (hsome h).1⟩)
      | responseBody =>
        exact .item req hreq hpending _ (by simp [frameItem, hkind]) _ _ .inl (by simp) (by simp [hkind])
      | responseEnd =>
        rw [htwice]
        exact .item req hreq hpending _ (by simp [frameItem, hkind]) _ _ (fun _ => .inr rfl) (fun _ => rfl) (by simp [hkind])
      | error =>
        split_ifs with htx hawaits
        · rw [htwice]
          exact .start req hreq hpending htx _ _ (fun _ => ⟨rfl, rfl⟩) (fun _ => .inl) (.inr ⟨hkind, by simp, rfl⟩)
        · rw [htwice]
          exact .start req hreq hpending htx _ _ (fun h => absurd h hawaits) (fun _ => .inl) (.inr ⟨hkind, by simp, rfl⟩)
        · exact .item req hreq hpending _ (by simp [frameItem, hkind]) _ _ .inl (by simp) fun _ => (Bool.not_eq_true _).mp htx
      | _ => exact .ignored req hreq (.inr ⟨by simp [frameItem, hkind], by simp [hkind]⟩)
    · rw [filter_some_neg (by simpa [hlogged, Response.logged] using hpending)]
      exact .ignored req hreq (.inl (by simpa using hpending))

theorem Taken.accepts {frame : Frame} (h : Taken validHeader frame s s') (hidle : s.handling = none)
    (hreq : s'.requests frame.requestId = some req) :
    ∃ req1, s.requests frame.requestId = some req1 ∧
      Accepts frame req1.response req.response (s'.inflight frame.requestId) := by
  have hinflight : ∀ {x : Primary}, x.handling = none → x.inflight frame.requestId = [] := by
    intro x hx
    simp [inflight, hx]
  cases h with
  | unknown hnone => simp [hreq] at hnone
  | ignored req1 hreq1 hwhy =>
    obtain rfl := some.inj (hreq.symm.trans (requests_setResponse.trans (if_pos rfl)))
    refine ⟨req1, hreq1, ?_⟩
    rw [hinflight (by exact hidle)]
    exact .ignored (hwhy.imp_right And.left)
  | start req1 hreq1 hpending htx start aborts hstart haborts hitem =>
    obtain rfl := some.inj (hreq.symm.trans (requests_setResponse.trans (if_pos rfl)))
    refine ⟨req1, hreq1, ?_⟩
    rw [hinflight (by exact hidle)]
    refine .start start hpending htx (fun h => (hstart h).1) ?_ fun hok => ?_
    · rcases hitem with ⟨hkind, -⟩ | ⟨hkind, -⟩ <;> simp [hkind]
    · rcases hitem with ⟨hkind, -⟩ | ⟨-, hne, -⟩
      · simp [frameItem, hkind]
      · exact absurd hok hne
  | item req1 hreq1 hpending item hitem complete abort hcomplete =>
    obtain rfl := some.inj (hreq.symm.trans (requests_setResponse.trans (if_pos rfl)))
    refine ⟨req1, hreq1, ?_⟩
    rw [inflight_of_handling rfl, if_pos rfl]
    exact .item item complete hpending hitem hcomplete

theorem Taken.other {frame : Frame} (h : Taken validHeader frame s s') (hidle : s.handling = none) (hne : frame.requestId ≠ r) :
    s'.requests r = s.requests r ∧ s'.inflight r = [] := by
  have hinflight : ∀ {x : Primary}, x.handling = none → x.inflight r = [] := by
    intro x hx
    simp [inflight, hx]
  have hother : ∀ req res, (s.setResponse frame.requestId req res).requests r = s.requests r := fun req res =>
    requests_setResponse.trans (if_neg (Ne.symm hne))
  cases h with
  | unknown => exact ⟨rfl, hinflight hidle⟩
  | ignored | start => exact ⟨hother _ _, hinflight (by exact hidle)⟩
  | item =>
    refine ⟨hother _ _, ?_⟩
    exact if_neg hne

theorem Taken.status {frame : Frame} (h : Taken validHeader frame s s') : s'.status = s.status := by
  cases h <;> rfl

/-- **What a step can do to a request.** -/
theorem view_step (h : primaryStep validHeader s a = some s')
    (hhandled : ∀ hd, s.handling = some hd → s.requests hd.requestId ≠ none) (hfresh : s.requests s.next = none)
    (hreq : s'.requests r = some req) : Stepped a s s' r req := by
  cases effect h with
  | began hopens h =>
    simp only [beginSend, ite_none_left_eq_some, some.injEq] at h
    obtain ⟨-, rfl⟩ := h
    by_cases hid : r = s.next
    · subst hid
      obtain rfl : _ = req := by simpa using hreq
      refine .inr ⟨hfresh, rfl, ?_⟩
      -- nothing of the new request is in flight, since it was not known
      cases hhandling : s.handling with
      | none => simp [inflight]
      | some hd =>
        have hne : hd.requestId ≠ s.next := fun hid => hhandled hd hhandling (hid ▸ hfresh)
        simp [inflight, hne]
    · exact .inl ⟨req, by simpa [hid] using hreq, .same _⟩
  | queued h1 hphase =>
    refine stepped_of_set hreq h1 (fun _ => requests_enqueue) rfl rfl fun v hres _ => ?_
    rw [← hres] at hphase ⊢
    exact .queued v hphase
  | upload h1 => exact stepped_of_set hreq h1 (fun _ => requests_setRequest) rfl rfl fun v hres _ => hres ▸ .same v
  | sent h1 => exact stepped_of_set hreq h1 (fun _ => requests_enqueue) rfl rfl fun v hres _ => hres ▸ .same v
  | opened h1 hphase hstart =>
    refine stepped_of_set hreq h1 (fun _ => requests_setResponse) rfl rfl fun v hres _ => ?_
    rw [← hres] at hphase hstart ⊢
    exact .opened v hphase hstart
  | dropped h1 => exact stepped_of_set hreq h1 (fun _ => requests_dropPending) rfl rfl gaveUp_removed
  | finished h1 => exact stepped_of_set hreq h1 (fun _ => requests_setResponse) rfl rfl gaveUp_finished
  | @read r1 req1 res h1 hread =>
    refine stepped_of_set hreq h1 (fun _ => requests_setResponse) rfl rfl fun v hres hfl => ?_
    rw [← hres, ← hfl] at hread
    exact .read v res hread
  | abandoned h1 => exact stepped_of_set hreq h1 (fun _ => requests_setResponse) rfl rfl gaveUp_removed
  | abortLost | forwarded => exact .inl ⟨req, hreq, .same _⟩
  | abortSent habort hopen h1 =>
    exact stepped_of_set hreq h1 (fun _ => requests_enqueue) rfl rfl fun v hres _ => hres ▸ .same v
  | @received frame hrun hidle =>
    have htaken := takeFrame_taken validHeader s frame
    have hnone : s.inflight r = [] := by simp [inflight, hidle]
    by_cases hid : frame.requestId = r
    · subst hid
      obtain ⟨req1, h1, haccepts⟩ := htaken.accepts hidle hreq
      refine .inl ⟨req1, h1, ?_⟩
      have hview : (s.takeFrame validHeader frame).view frame.requestId req = { s.view frame.requestId req1 with
            response := req.response
            inflight := (s.takeFrame validHeader frame).inflight frame.requestId } := by
        simp [view, htaken.status]
      rw [hview]
      exact .received _ frame _ _ rfl (by simp [view, hrun]) hnone haccepts
    · obtain ⟨hsame, hother⟩ := htaken.other hidle hid
      exact .inl ⟨req, hsame ▸ hreq, viewStep_same htaken.status (hother.trans hnone.symm)⟩
  | @undelivered hd req1 hhandling h1 hreceiving =>
    have hold : s.requests r = some req := hreq
    refine .inl ⟨req, hold, ?_⟩
    by_cases hid : hd.requestId = r
    · subst hid
      obtain rfl : req = req1 := some.inj (hold.symm.trans h1)
      exact .undelivered _ hreceiving
    · have hnone : s.inflight r = [] := by rw [inflight_of_handling hhandling, if_neg hid]
      exact viewStep_same rfl hnone.symm
  | @delivered hd req1 hhandling h1 hreceiving =>
    by_cases hid : hd.requestId = r
    · subst hid
      obtain rfl := some.inj (hreq.symm.trans (requests_setResponse.trans (if_pos rfl)))
      refine .inl ⟨req1, h1, ?_⟩
      have hitem : s.inflight hd.requestId = [hd.item] := by rw [inflight_of_handling hhandling, if_pos rfl]
      exact .delivered (s.view hd.requestId req1) hd.item hitem hreceiving
    · have hnone : s.inflight r = [] := by rw [inflight_of_handling hhandling, if_neg hid]
      have hold : s.requests r = some req := (requests_setResponse.trans (if_neg (Ne.symm hid))).symm.trans hreq
      exact .inl ⟨req, hold, viewStep_same rfl hnone.symm⟩
  | stopped => exact .inl ⟨req, hreq, .stopped _⟩
  | unregistered hclosing =>
    obtain ⟨req1, h1, rfl⟩ := map_eq_some_iff.mp hreq
    refine .inl ⟨req1, h1, ?_⟩
    have hrun : (s.view r req1).running = false := by simp [view, hclosing]
    convert ViewStep.failed (s.view r req1) "reverse tunnel streaming lane closed" rfl hrun using 1
    simp [view, hclosing]
    rfl
  | queueDropped hstatus =>
    have hview : view { s with status := .closed, requestQueue := [] } r req = s.view r req := by
      simp [view, hstatus]
      rfl
    refine .inl ⟨req, hreq, ?_⟩
    rw [hview]
    exact .same _

end Views

/-! ### The invariant -/

/-- The received frames end the response after `bytes`: a response end, no error before it, and the bytes are the
payload up to there. -/
def Ends (received : List Frame) (bytes : List UInt8) : Prop :=
  ∃ before last after, received = before ++ last :: after ∧ last.kind = .responseEnd ∧
    (∀ f ∈ before, f.kind ≠ .responseEnd ∧ f.kind ≠ .error) ∧ bytes = payload .responseBody before

theorem Ends.append {received : List Frame} {bytes : List UInt8} (h : Ends received bytes) (frame : Frame) :
    Ends (received ++ [frame]) bytes := by
  obtain ⟨before, last, after, rfl, hlast, hbefore, hbytes⟩ := h
  exact ⟨before, last, after ++ [frame], by simp, hlast, hbefore, hbytes⟩

theorem payload_of_chunks {frames : List Frame} {chunks : List (List UInt8)} (h : itemsOf frames = chunks.map .chunk) :
    (∀ f ∈ frames, f.kind ≠ .responseEnd ∧ f.kind ≠ .error) ∧ payload .responseBody frames = chunks.flatten := by
  induction frames generalizing chunks with
  | nil =>
    obtain rfl : chunks = [] := by simpa [itemsOf] using h.symm
    simp
  | cons f rest ih =>
    cases hkind : f.kind with
    | responseBody =>
      have hitem : frameItem f = some (.chunk f.body) := by simp [frameItem, hkind]
      cases chunks with
      | nil => simp [itemsOf, hitem] at h
      | cons c chunks =>
        simp only [itemsOf, filterMap_cons, hitem, map_cons, List.cons.injEq, chunk.injEq] at h
        obtain ⟨hrest, hpayload⟩ := ih h.2
        exact ⟨by simpa [hkind] using hrest, by simp [hkind, hpayload, h.1]⟩
    | responseEnd =>
      have hitem : frameItem f = some .finished := by simp [frameItem, hkind]
      cases chunks <;> simp [itemsOf, hitem] at h
    | error =>
      have hitem : frameItem f = some (.failure (errorMessage f)) := by simp [frameItem, hkind]
      cases chunks <;> simp [itemsOf, hitem] at h
    | _ =>
      have hitem : frameItem f = none := by simp [frameItem, hkind]
      simp only [itemsOf, filterMap_cons, hitem] at h
      obtain ⟨hrest, hpayload⟩ := ih h
      exact ⟨by simpa [hkind] using hrest, by simpa [hkind] using hpayload⟩

theorem ends_of_items {received : List Frame} {chunks : List (List UInt8)} {rest : List BodyItem}
    (h : itemsOf received = chunks.map .chunk ++ .finished :: rest) : Ends received chunks.flatten := by
  obtain ⟨before, after, rfl, hbefore, hafter⟩ := filterMap_eq_append_iff.mp h
  obtain ⟨skipped, last, after, rfl, hskipped, hlast, -⟩ := filterMap_eq_cons_iff.mp hafter
  have hkind : last.kind = .responseEnd := by
    unfold frameItem at hlast
    split at hlast <;> simp_all
  have hall : itemsOf (before ++ skipped) = chunks.map .chunk := by
    have hnone : itemsOf skipped = [] := filterMap_eq_nil_iff.mpr hskipped
    rw [itemsOf_append, hnone, append_nil]
    exact hbefore
  obtain ⟨hclean, hpayload⟩ := payload_of_chunks hall
  exact ⟨before ++ skipped, last, after, by simp, hkind, hclean, hpayload.symm⟩

def BodyItem.isFailure : BodyItem → Bool
  | .failure _ => true
  | _ => false

/-- There is a reader that has not ended, or there may still be one. -/
def Response.live (res : Response) : Prop := res.phase ≠ .over ∧ res.outcome = none ∧ res.start.all Except.isOk = true

instance (res : Response) : Decidable res.live := inferInstanceAs (Decidable (_ ∧ _ ∧ _))

/-- If the lane is lost now the reader hears of it, or it has no need to: the end or an error came before. -/
def Response.heard (res : Response) : Prop :=
  res.live → res.pending = true → res.startTx = false →
    res.responseComplete = true ∨ res.body.any BodyItem.isFailure = true ∨ res.hasRoom = true

instance (res : Response) : Decidable res.heard := inferInstanceAs (Decidable (_ → _ → _ → _))

/-- What always holds of a request: nothing is in flight when the lane loop has stopped, a reader has its start, a sender
that is there was not used and one that was used while somebody waited was heard, and only a lost lane takes a request
away that is not over. -/
structure Steady (v : View) : Prop where
  idle : v.running = false → v.inflight = []
  started : v.response.phase = .reading → v.response.start = some (.ok ())
  unsent : v.response.startTx = true → v.response.start = none
  answered : v.response.phase ≠ .over → v.response.startTx = false → v.response.start ≠ none
  stopped : v.response.phase ≠ .over → v.response.pending = false → v.running = false

theorem steady_fresh (running : Bool) : Steady ⟨running, {}, []⟩ where
  idle _ := rfl
  started h := by simp at h
  unsent _ := rfl
  answered _ h := by simp at h
  stopped _ h := by simp at h

theorem Steady.step {v v' : View} {a : PrimaryAct} (hv : Steady v) (h : ViewStep a v v') : Steady v' := by
  cases h with
  | same => exact hv
  | queued hphase =>
    exact ⟨hv.idle, by simp, hv.unsent, fun _ => hv.answered (by simp [hphase]), fun _ => hv.stopped (by simp [hphase])⟩
  | opened hphase hstart =>
    exact ⟨hv.idle, fun _ => hstart, hv.unsent, fun _ => hv.answered (by simp [hphase]), fun _ => hv.stopped (by simp [hphase])⟩
  | gaveUp pending => exact ⟨hv.idle, by simp, hv.unsent, by simp, by simp⟩
  | read res hread =>
    obtain ⟨-, hread⟩ := ite_none_right_eq_some.mp hread
    split at hread
    · cases hread
      exact ⟨hv.idle, hv.started, hv.unsent, hv.answered, hv.stopped⟩
    · cases hread
      exact ⟨hv.idle, hv.started, hv.unsent, hv.answered, hv.stopped⟩
    · cases hread
      exact ⟨hv.idle, hv.started, hv.unsent, hv.answered, hv.stopped⟩
    · obtain ⟨-, hread⟩ := ite_none_left_eq_some.mp hread
      cases hread
      exact ⟨hv.idle, hv.started, hv.unsent, hv.answered, hv.stopped⟩
  | received frame res items hact hrun hidle haccepts =>
    have hrun' : ∀ {items : List BodyItem}, v.running = false → items = [] := fun h => by simp [hrun] at h
    cases haccepts with
    | ignored => exact ⟨fun _ => rfl, hv.started, hv.unsent, hv.answered, hv.stopped⟩
    | start start hpending htx hstart =>
      have hphase : v.response.phase ≠ .reading := by
        intro hreading
        have hnone := hv.unsent htx
        simp [hv.started hreading] at hnone
      refine ⟨fun _ => rfl, fun h => absurd h hphase, by simp, fun hover _ hnone => ?_, hv.stopped⟩
      have hawaits : v.response.awaitsStart = true := by
        cases hp : v.response.phase <;> simp_all [awaitsStart, logged]
      have hsome := hstart hawaits
      have hnone' : start = none := hnone
      simp [hnone'] at hsome
    | item => exact ⟨hrun', hv.started, hv.unsent, hv.answered, hv.stopped⟩
  | delivered item | undelivered => exact ⟨fun _ => rfl, hv.started, hv.unsent, hv.answered, hv.stopped⟩
  | stopped => exact ⟨fun _ => rfl, hv.started, hv.unsent, hv.answered, fun _ _ => rfl⟩
  | failed message hact hrun =>
    unfold failFor
    split_ifs with hpending htx hroom
    · refine ⟨hv.idle, fun h => ?_, by simp, by simp, fun _ _ => hrun⟩
      have hnone := hv.unsent htx
      simp [hv.started h] at hnone
    · exact ⟨hv.idle, hv.started, hv.unsent, hv.answered, fun _ _ => hrun⟩
    · exact ⟨hv.idle, hv.started, hv.unsent, hv.answered, fun _ _ => hrun⟩
    · exact hv

/-- The invariant of one request. `held` is about a pending request: what was read, the body channel and at most one
more item are what was received, and the one more is the item in flight as long as the lane loop runs. `lost` is
about a request that went with its lane. -/
structure Good (v : View) : Prop extends Steady v where
  ended : v.response.outcome = some .eof → Ends v.response.received v.response.got
  complete : v.response.live → v.response.responseComplete = true → .finished ∈ itemsOf v.response.received
  held : v.response.live → v.response.pending = true → ∃ (chunks : List (List UInt8)) (last : List BodyItem),
    itemsOf v.response.received = chunks.map .chunk ++ v.response.body ++ last ∧
      v.response.got = chunks.flatten ∧ last.length ≤ 1 ∧ (v.running = true → last = v.inflight)
  lost : v.response.live → v.response.pending = false → ∃ (chunks : List (List UInt8)) (kept last : List BodyItem),
    itemsOf v.response.received = chunks.map .chunk ++ kept ++ last ∧
      v.response.got = chunks.flatten ∧ last.length ≤ 1 ∧
      ((∃ message, v.response.body = kept ++ [.failure message]) ∨
        v.response.body = kept ∧ (.finished ∈ itemsOf v.response.received ∨ kept.any BodyItem.isFailure = true))

namespace Good

variable {v v' : View} {a : PrimaryAct}

theorem receiving_of_live {res : Response} (h : res.live) : res.receiving = true := by
  obtain ⟨hphase, houtcome, -⟩ := h
  unfold receiving
  cases hp : res.phase <;> simp_all

/-- A pending request whose next item is `item`, or a lost one: the items before it were chunks. -/
theorem next_item (hv : Good v) (hlive : v.response.live) {item : BodyItem} {rest : List BodyItem}
    (hbody : v.response.body = item :: rest) (hfailure : item.isFailure = false) :
    ∃ (chunks : List (List UInt8)) (tail : List BodyItem),
      itemsOf v.response.received = chunks.map .chunk ++ item :: tail ∧ v.response.got = chunks.flatten := by
  cases hpending : v.response.pending with
  | true =>
    obtain ⟨chunks, last, hitems, hgot, -⟩ := hv.held hlive hpending
    exact ⟨chunks, rest ++ last, by simp [hitems, hbody], hgot⟩
  | false =>
    obtain ⟨chunks, kept, last, hitems, hgot, -, hwhy⟩ := hv.lost hlive hpending
    obtain ⟨kept', rfl⟩ : ∃ kept', kept = item :: kept' := by
      rcases hwhy with ⟨message, happend⟩ | ⟨hsame, -⟩
      · cases kept with
        | nil =>
          simp only [hbody, nil_append, List.cons.injEq] at happend
          simp [happend.1, isFailure] at hfailure
        | cons first kept' =>
          simp only [hbody, cons_append, List.cons.injEq] at happend
          exact ⟨kept', by rw [happend.1]⟩
      · exact ⟨rest, by rw [← hsame, hbody]⟩
    exact ⟨chunks, kept' ++ last, by simp [hitems], hgot⟩

theorem read_chunk (hv : Good v) (hlive : v.response.live) {bytes : List UInt8} {rest : List BodyItem}
    (hbody : v.response.body = .chunk bytes :: rest)
    (hs : Steady { v with response := { v.response with body := rest, got := v.response.got ++ bytes } }) :
    Good { v with response := { v.response with body := rest, got := v.response.got ++ bytes } } where
  toSteady := hs
  ended h := by simp [hlive.2.1] at h
  complete _ := hv.complete hlive
  held _ hpending := by
    obtain ⟨chunks, last, hitems, hgot, hlast, hrun⟩ := hv.held hlive hpending
    exact ⟨chunks ++ [bytes], last, by simp [hitems, hbody], by simp [hgot], hlast, hrun⟩
  lost _ hpending := by
    obtain ⟨chunks, kept, last, hitems, hgot, hlast, ⟨message, happend⟩ | ⟨hsame, hwhy⟩⟩ := hv.lost hlive hpending
    · cases kept with
      | nil => simp [hbody] at happend
      | cons first kept =>
        simp only [hbody, cons_append, List.cons.injEq] at happend
        obtain ⟨rfl, rfl⟩ := happend
        exact ⟨chunks ++ [bytes], kept, last, by simp [hitems], by simp [hgot], hlast, .inl ⟨message, rfl⟩⟩
    · obtain rfl : kept = .chunk bytes :: rest := hsame.symm.trans hbody
      refine ⟨chunks ++ [bytes], rest, last, by simp [hitems], by simp [hgot], hlast, .inr ⟨rfl, ?_⟩⟩
      simpa [isFailure] using hwhy

/-- The channel of a lost request is empty and closed, and no error was in it: then the response has ended. -/
theorem ends_of_closed (hv : Good v) (hlive : v.response.live) (hbody : v.response.body = [])
    (hpending : v.response.pending = false) : Ends v.response.received v.response.got := by
  obtain ⟨chunks, kept, last, hitems, hgot, hlast, ⟨message, happend⟩ | ⟨hsame, hwhy⟩⟩ := hv.lost hlive hpending
  · simp [hbody] at happend
  · obtain rfl : kept = [] := hsame.symm.trans hbody
    have hmem : finished ∈ last := by simpa [hitems] using hwhy
    obtain rfl : last = [.finished] := by
      match last, hlast, hmem with
      | [item], _, hmem => simpa using (mem_singleton.mp hmem).symm
    rw [hgot]
    exact ends_of_items (by simpa using hitems)

theorem finish_reading {rest : List BodyItem} {outcome : ReadEnd}
    (hends : outcome = .eof → Ends v.response.received v.response.got)
    (hs : Steady { v with response := { v.response with body := rest, outcome := some outcome } }) :
    Good { v with response := { v.response with body := rest, outcome := some outcome } } where
  toSteady := hs
  ended h := hends (by simpa using h)
  complete h := by simp [live] at h
  held h := by simp [live] at h
  lost h := by simp [live] at h

theorem read {res : Response} (hv : Good v) (h : v.response.read (v.response.pending || !v.inflight.isEmpty) = some res)
    (hs : Steady { v with response := res }) : Good { v with response := res } := by
  obtain ⟨⟨hphase, houtcome⟩, h⟩ := ite_none_right_eq_some.mp h
  have hlive : v.response.live := ⟨by simp [hphase], houtcome, by simp [hv.started hphase, Except.isOk, Except.toBool]⟩
  cases hbody : v.response.body with
  | nil =>
    simp only [hbody] at h
    obtain ⟨hsenders, h⟩ := ite_none_left_eq_some.mp h
    cases h
    have hpending : v.response.pending = false := by
      by_contra hp
      exact hsenders (by simp [hp])
    exact finish_reading (fun _ => hv.ends_of_closed hlive hbody hpending) hs
  | cons item rest =>
    cases item with simp only [hbody] at h
    | chunk bytes =>
      cases h
      exact hv.read_chunk hlive hbody hs
    | failure message =>
      cases h
      exact finish_reading (by simp) hs
    | finished =>
      cases h
      refine finish_reading (fun _ => ?_) hs
      obtain ⟨chunks, tail, hitems, hgot⟩ := hv.next_item hlive hbody rfl
      rw [hgot]
      exact ends_of_items hitems

theorem ignored {frame : Frame} (hv : Good v) (hrun : v.running = true) (hidle : v.inflight = [])
    (hwhy : v.response.pending = false ∨ frameItem frame = none)
    (hs : Steady { v with response := v.response.logged frame, inflight := [] }) :
    Good { v with response := v.response.logged frame, inflight := [] } := by
  -- a request that is not pending although the lane loop runs is over
  have hitems : v.response.live → itemsOf (v.response.received ++ [frame]) = itemsOf v.response.received := by
    intro hlive
    rcases hwhy with hpending | hnone
    · simp [hv.stopped hlive.1 hpending] at hrun
    · simp [itemsOf, hnone]
  refine
    { toSteady := hs
      ended := fun h => (hv.ended h).append frame
      complete := ?_
      held := ?_
      lost := ?_ }
  · intro hlive hcomplete
    change _ ∈ itemsOf (v.response.received ++ [frame])
    rw [hitems hlive]
    exact hv.complete hlive hcomplete
  · intro hlive hpending
    obtain ⟨chunks, last, heq, hgot, hlast, hrun⟩ := hv.held hlive hpending
    exact ⟨chunks, last, (hitems hlive).trans heq, hgot, hlast, fun h => (hrun h).trans hidle⟩
  · intro hlive hpending
    simp [hv.stopped hlive.1 hpending] at hrun

theorem received {frame : Frame} {res : Response} {items : List BodyItem} (hv : Good v) (hrun : v.running = true)
    (hidle : v.inflight = []) (h : Accepts frame v.response res items)
    (hs : Steady { v with response := res, inflight := items }) :
    Good { v with response := res, inflight := items } := by
  cases h with
  | ignored hwhy => exact hv.ignored hrun hidle hwhy hs
  | start start hpending htx hstart hkind hitem =>
    have hnone := hv.unsent htx
    have hphase : v.response.phase ≠ .reading := by
      intro hreading
      simp [hv.started hreading] at hnone
    -- with a reader to come, the start was sent and the frame is the response start
    have hitems : live { v.response.logged frame with startTx := false, start := start } →
        v.response.live ∧ itemsOf (v.response.received ++ [frame]) = itemsOf v.response.received := by
      rintro ⟨hover, houtcome, hok⟩
      have hawaits : v.response.awaitsStart = true := by
        cases hp : v.response.phase <;> simp_all [awaitsStart, logged]
      have hstart' : start = some (.ok ()) := by
        have hsome := hstart hawaits
        match start, hsome, hok with
        | some (.ok ()), _, _ => rfl
      exact ⟨⟨hover, houtcome, by simp [hnone]⟩, by simp [itemsOf, hitem hstart']⟩
    refine
      { toSteady := hs
        ended := fun h => (hv.ended h).append frame
        complete := ?_
        held := ?_
        lost := fun _ h => by simp [logged, hpending] at h }
    · intro hlive hcomplete
      obtain ⟨hlive', heq⟩ := hitems hlive
      change _ ∈ itemsOf (v.response.received ++ [frame])
      rw [heq]
      exact hv.complete hlive' hcomplete
    · intro hlive _
      obtain ⟨hlive', heq⟩ := hitems hlive
      obtain ⟨chunks, last, hheld, hgot, hlast, hrun⟩ := hv.held hlive' hpending
      exact ⟨chunks, last, heq.trans hheld, hgot, hlast, fun h => (hrun h).trans hidle⟩
  | item item complete hpending hitem hcomplete =>
    have hitems : itemsOf (v.response.received ++ [frame]) = itemsOf v.response.received ++ [item] := by
      simp [itemsOf, hitem]
    refine
      { toSteady := hs
        ended := fun h => (hv.ended h).append frame
        complete := ?_
        held := ?_
        lost := fun _ h => by simp [logged, hpending] at h }
    · intro hlive hc
      change _ ∈ itemsOf (v.response.received ++ [frame])
      rw [hitems]
      rcases hcomplete hc with hold | rfl
      · exact mem_append_left _ (hv.complete hlive hold)
      · simp
    · intro hlive _
      obtain ⟨chunks, last, hheld, hgot, -, hlast⟩ := hv.held hlive hpending
      obtain rfl : last = [] := (hlast hrun).trans hidle
      refine ⟨chunks, [item], ?_, hgot, by simp, fun _ => rfl⟩
      change itemsOf (v.response.received ++ [frame]) = _
      rw [hitems, hheld]
      simp [logged]

theorem failed {message : String} (hv : Good v) (hheard : v.response.heard)
    (hs : Steady { v with response := v.response.failFor message }) :
    Good { v with response := v.response.failFor message } := by
  by_cases hpending : v.response.pending = true
  swap
  · have hsame : v.response.failFor message = v.response := by
      rw [failFor, if_neg hpending]
    rw [hsame]
    exact hv
  by_cases htx : v.response.startTx = true
  · -- the future is told, there will be no reader
    rw [failFor, if_pos hpending, if_pos htx] at hs ⊢
    have hdead : ¬ live { v.response with pending := false, startTx := false, start := some (.error message) } := by
      simp [live, Except.isOk, Except.toBool]
    exact ⟨hs, hv.ended, fun h => absurd h hdead, fun h => absurd h hdead, fun h => absurd h hdead⟩
  · by_cases hroom : v.response.receiving = true ∧ v.response.hasRoom = true
    · rw [failFor, if_pos hpending, if_neg htx, if_pos hroom] at hs ⊢
      refine ⟨hs, hv.ended, hv.complete, fun _ h => by simp at h, fun hlive _ => ?_⟩
      obtain ⟨chunks, last, hheld, hgot, hlast, -⟩ := hv.held hlive hpending
      exact ⟨chunks, v.response.body, last, hheld, hgot, hlast, .inl ⟨message, rfl⟩⟩
    · rw [failFor, if_pos hpending, if_neg htx, if_neg hroom] at hs ⊢
      refine ⟨hs, hv.ended, hv.complete, fun _ h => by simp at h, fun hlive _ => ?_⟩
      have hlive' : v.response.live := hlive
      obtain ⟨chunks, last, hheld, hgot, hlast, -⟩ := hv.held hlive' hpending
      refine ⟨chunks, v.response.body, last, hheld, hgot, hlast, .inr ⟨rfl, ?_⟩⟩
      rcases hheard hlive' hpending (by simpa using htx) with hcomplete | hany | hfree
      · exact .inl (hv.complete hlive' hcomplete)
      · exact .inr hany
      · exact absurd ⟨receiving_of_live hlive', hfree⟩ hroom

theorem phase_moves {phase : SendPhase} (hv : Good v) (hphase : v.response.phase ≠ .over)
    (hs : Steady { v with response.phase := phase }) : Good { v with response.phase := phase } := by
  have hlive : live { v.response with phase := phase } → v.response.live := by
    rintro ⟨-, houtcome, hok⟩
    exact ⟨hphase, houtcome, hok⟩
  exact ⟨hs, hv.ended, fun h => hv.complete (hlive h), fun h => hv.held (hlive h), fun h => hv.lost (hlive h)⟩

/-- **Step lemma.** -/
theorem step (hv : Good v) (h : ViewStep a v v') (hheard : a = .unregister → v.response.heard) : Good v' := by
  have hs : Steady v' := hv.toSteady.step h
  cases h with
  | same => exact hv
  | queued hphase | opened hphase hstart => exact hv.phase_moves (by simp [hphase]) hs
  | gaveUp pending =>
    have hdead : ¬ live { v.response with phase := .over, pending := pending } := by simp [live]
    exact ⟨hs, hv.ended, fun h => absurd h hdead, fun h => absurd h hdead, fun h => absurd h hdead⟩
  | read res hread => exact hv.read hread hs
  | received frame res items hact hrun hidle haccepts => exact hv.received hrun hidle haccepts hs
  | delivered item hitem hreceiving =>
    have hrun : v.running = true := by
      by_contra h
      simp [hv.idle (by simpa using h)] at hitem
    refine ⟨hs, hv.ended, hv.complete, fun hlive hpending => ?_, fun hlive hpending => ?_⟩
    · obtain ⟨chunks, last, hheld, hgot, -, hlast⟩ := hv.held hlive hpending
      obtain rfl : last = [item] := (hlast hrun).trans hitem
      exact ⟨chunks, [], by simpa using hheld, hgot, by simp, fun _ => rfl⟩
    · simp [hv.stopped hlive.1 hpending] at hrun
  | undelivered hreceiving =>
    have hdead : ¬ v.response.live := fun hlive => by simp [receiving_of_live hlive] at hreceiving
    exact ⟨hs, hv.ended, hv.complete, fun h => absurd h hdead, fun h => absurd h hdead⟩
  | stopped =>
    refine ⟨hs, hv.ended, hv.complete, fun hlive hpending => ?_, hv.lost⟩
    obtain ⟨chunks, last, hheld, hgot, hlast, -⟩ := hv.held hlive hpending
    exact ⟨chunks, last, hheld, hgot, hlast, by simp⟩
  | failed message hact hrun => exact hv.failed (hheard hact) hs

end Good

/-! ### Whole runs -/

/-- No lane is lost while a reader's channel is full and neither the end nor an error is on its way to the reader. -/
def LossHeard (s : Primary) (a : PrimaryAct) : Prop :=
  a = .unregister → ∀ r < s.next, ∀ req ∈ s.requests r, req.response.heard

instance (s : Primary) (a : PrimaryAct) : Decidable (LossHeard s a) :=
  inferInstanceAs (Decidable (_ → ∀ r < s.next, ∀ req ∈ s.requests r, _))

/-- Request ids are fresh, and the item in flight belongs to a request. -/
structure Known (s : Primary) : Prop where
  fresh : ∀ r, s.next ≤ r → s.requests r = none
  idle : s.status ≠ .running → s.handling = none
  handled : ∀ h, s.handling = some h → s.requests h.requestId ≠ none

namespace Known

variable {s s' : Primary} {r : ℕ} {req req' : Request}

theorem set (hs : Known s) (hreq : s.requests r = some req)
    (hset : ∀ r', s'.requests r' = if r' = r then some req' else s.requests r') (hnext : s'.next = s.next)
    (hstatus : s'.status = s.status) (hhandling : s'.handling = s.handling ∨ s'.handling = none) : Known s' := by
  have hkeep : ∀ r', s.requests r' = none → s'.requests r' = none := by
    intro r' hnone
    rw [hset, if_neg]
    · exact hnone
    · rintro rfl
      simp [hreq] at hnone
  refine ⟨fun r' hr => hkeep r' (hs.fresh r' (hnext ▸ hr)), fun h => ?_, fun h hh => ?_⟩
  · rcases hhandling with hsame | hnone
    · rw [hsame]
      exact hs.idle (hstatus ▸ h)
    · exact hnone
  · rcases hhandling with hsame | hnone
    · rw [hset]
      split_ifs with hid
      · simp
      · exact hs.handled h (hsame ▸ hh)
    · simp [hnone] at hh

theorem taken {frame : Frame} (hs : Known s) (hrun : s.status = .running) (h : Taken validHeader frame s s') : Known s' := by
  cases h with
  | unknown => exact hs
  | ignored req hreq | start req hreq => exact hs.set hreq (fun _ => requests_setResponse) rfl rfl (.inl rfl)
  | item req hreq hpending item hitem complete abort =>
    have hset : Known (s.setResponse frame.requestId req
        { req.response.logged frame with responseComplete := complete }) :=
      hs.set hreq (fun _ => requests_setResponse) rfl rfl (.inl rfl)
    refine ⟨hset.fresh, fun hstop => absurd hrun hstop, ?_⟩
    rintro h hh
    cases hh
    simp

theorem step {validHeader : String × String → Bool} {a : PrimaryAct} (hs : Known s)
    (h : primaryStep validHeader s a = some s') : Known s' := by
  cases a with
  | beginSend method pathAndQuery headers contentLength original reader =>
    simp only [primaryStep, beginSend, ite_none_right_eq_some, ite_none_left_eq_some, some.injEq] at h
    obtain ⟨-, -, rfl⟩ := h
    refine ⟨fun r hr => ?_, hs.idle, fun h hh => ?_⟩
    · have hne : r ≠ s.next := by
        dsimp only at hr
        omega
      have hle : s.next ≤ r := by
        dsimp only at hr
        omega
      simpa [hne] using hs.fresh r hle
    · have hold := hs.handled h hh
      by_cases hid : h.requestId = s.next
      · simp [hid]
      · simpa [hid] using hold
  | queueStart r1 =>
    obtain ⟨req1, h1, h⟩ := onRequest_eq_some h
    obtain ⟨-, ⟨-, rfl⟩ | ⟨-, rfl⟩⟩ := queueStart_cases h
    · exact hs.set h1 (fun _ => requests_dropPending) rfl rfl (.inl rfl)
    · exact hs.set h1 (fun _ => requests_enqueue) rfl rfl (.inl rfl)
  | bridge r1 act =>
    obtain ⟨req1, h1, h⟩ := onRequest_eq_some h
    obtain ⟨reader, -, rfl⟩ := map_eq_some_iff.mp h
    exact hs.set h1 (fun _ => requests_setRequest) rfl rfl (.inl rfl)
  | sendBody r1 n =>
    obtain ⟨req1, h1, h⟩ := onRequest_eq_some h
    obtain ⟨-, result, reader, -, ⟨-, message, rfl⟩ | ⟨-, chunk, -, rfl⟩ | ⟨-, -, rfl⟩⟩ := sendBody_cases h
    · exact hs.set h1 (fun _ => requests_setRequest) rfl rfl (.inl rfl)
    all_goals exact hs.set h1 (fun _ => requests_enqueue) rfl rfl (.inl rfl)
  | reportBody r1 =>
    obtain ⟨req1, h1, h⟩ := onRequest_eq_some h
    obtain ⟨message, -, ⟨-, rfl⟩ | ⟨-, rfl⟩⟩ := reportBody_cases h
    · exact hs.set h1 (fun _ => requests_setRequest) rfl rfl (.inl rfl)
    · exact hs.set h1 (fun _ => requests_enqueue) rfl rfl (.inl rfl)
  | takeStart r1 =>
    obtain ⟨req1, h1, h⟩ := onRequest_eq_some h
    obtain ⟨-, ⟨-, rfl⟩ | ⟨-, rfl⟩ | ⟨-, -, rfl⟩⟩ := takeStart_cases h
    · exact hs.set h1 (fun _ => requests_setResponse) rfl rfl (.inl rfl)
    · exact hs.set h1 (fun _ => requests_dropPending) rfl rfl (.inl rfl)
    · exact hs.set h1 (fun _ => requests_setResponse) rfl rfl (.inl rfl)
  | timeoutStart r1 =>
    obtain ⟨req1, h1, h⟩ := onRequest_eq_some h
    obtain ⟨-, -, rfl⟩ := timeoutStart_cases h
    exact hs.set h1 (fun _ => requests_dropPending) rfl rfl (.inl rfl)
  | cancelSend r1 =>
    obtain ⟨req1, h1, h⟩ := onRequest_eq_some h
    obtain ⟨-, rfl⟩ := cancelSend_cases h
    exact hs.set h1 (fun _ => requests_setResponse) rfl rfl (.inl rfl)
  | read r1 =>
    obtain ⟨req1, h1, h⟩ := onRequest_eq_some h
    obtain ⟨res, -, rfl⟩ := map_eq_some_iff.mp h
    exact hs.set h1 (fun _ => requests_setResponse) rfl rfl (.inl rfl)
  | dropReader r1 =>
    obtain ⟨req1, h1, h⟩ := onRequest_eq_some h
    obtain ⟨-, ⟨-, rfl⟩ | ⟨-, -, rfl⟩ | ⟨-, -, rfl⟩⟩ := dropReader_cases h
    · exact hs.set h1 (fun _ => requests_setResponse) rfl rfl (.inl rfl)
    · exact hs.set h1 (fun _ => requests_dropPending) rfl rfl (.inl rfl)
    · exact hs.set h1 (fun _ => requests_setResponse) rfl rfl (.inl rfl)
  | sendAbort i =>
    obtain ⟨abort, -, ⟨-, rfl⟩ | ⟨-, req1, h1, rfl⟩⟩ := sendAbort_cases h
    · exact ⟨hs.fresh, hs.idle, hs.handled⟩
    · exact hs.set h1 (fun _ => requests_enqueue) rfl rfl (.inl rfl)
  | forward =>
    simp only [primaryStep, ite_none_right_eq_some, some.injEq] at h
    obtain ⟨-, rfl⟩ := h
    exact ⟨hs.fresh, hs.idle, hs.handled⟩
  | receive frame =>
    simp only [primaryStep, ite_none_right_eq_some, some.injEq] at h
    obtain ⟨⟨hrun, -⟩, rfl⟩ := h
    exact hs.taken hrun (takeFrame_taken validHeader s frame)
  | deliver =>
    simp only [primaryStep, ite_none_right_eq_some] at h
    obtain ⟨-, h⟩ := h
    obtain ⟨hd, req1, hhandling, h1, ⟨-, rfl⟩ | ⟨-, -, rfl⟩⟩ := finishBodySend_cases h
    · exact ⟨hs.fresh, fun _ => rfl, by simp⟩
    · exact hs.set h1 (fun _ => requests_setResponse) rfl rfl (.inr rfl)
  | stopLoop =>
    simp only [primaryStep, ite_none_right_eq_some, some.injEq] at h
    obtain ⟨-, rfl⟩ := h
    exact ⟨hs.fresh, fun _ => rfl, by simp⟩
  | unregister =>
    simp only [primaryStep, ite_none_right_eq_some, some.injEq] at h
    obtain ⟨hclosing, rfl⟩ := h
    have hnone : s.handling = none := hs.idle (by simp [hclosing])
    refine ⟨fun r hr => ?_, fun _ => hnone, fun h hh => ?_⟩
    · simp [failStreamRequestsForLane, hs.fresh r hr]
    · have hold : s.handling = some h := hh
      simp [hnone] at hold
  | dropQueue =>
    simp only [primaryStep, ite_none_right_eq_some, some.injEq] at h
    obtain ⟨hstatus, rfl⟩ := h
    exact ⟨hs.fresh, fun _ => hs.idle (by simp [hstatus]), hs.handled⟩

end Known

theorem good_fresh (running : Bool) : Good ⟨running, {}, []⟩ where
  toSteady := steady_fresh running
  ended h := by simp at h
  complete _ h := by simp at h
  held _ _ := ⟨[], [], by simp [itemsOf], by simp, by simp, fun _ => rfl⟩
  lost _ h := by simp at h

structure Sound (s : Primary) : Prop where
  known : Known s
  good : ∀ r req, s.requests r = some req → Good (s.view r req)

theorem sound_of_reach {validHeader : String × String → Bool} {s : Primary}
    (h : (registry validHeader).Reach LossHeard {} s) : Sound s := by
  refine h.induct ⟨⟨by simp, fun _ => rfl, by simp⟩, by simp⟩ ?_
  intro s s' a hs hheard hstep
  refine ⟨hs.known.step hstep, fun r req hreq => ?_⟩
  rcases view_step hstep hs.known.handled (hs.known.fresh _ (Nat.le_refl _)) hreq with ⟨req1, h1, hview⟩ | ⟨-, hres, hidle⟩
  · refine (hs.good r req1 h1).step hview fun hact => ?_
    have hlt : r < s.next := by
      by_contra hle
      simp [hs.known.fresh r (Nat.le_of_not_lt hle)] at h1
    exact hheard hact r hlt req1 h1
  · rw [view, hres, hidle]
    exact good_fresh _

/-- The reader reads on after the last sender is gone. -/
def Response.readOn : ℕ → Response → Response
  | 0, res => res
  | n + 1, res =>
    match res.read false with
    | some res' => readOn n res'
    | none => res

theorem readOn_failed {res : Response} {n : ℕ} (hphase : res.phase = .reading) (houtcome : res.outcome = none)
    (hany : res.body.any BodyItem.isFailure = true) (hend : .finished ∉ res.body) (hn : res.body.length ≤ n) :
    (res.readOn n).outcome = some .failed := by
  induction n generalizing res with
  | zero =>
    obtain hnil : res.body = [] := by simpa using hn
    simp [hnil] at hany
  | succ n ih =>
    cases hbody : res.body with
    | nil => simp [hbody] at hany
    | cons item rest =>
      cases item with
      | chunk bytes =>
        have hread : res.read false = some { res with body := rest, got := res.got ++ bytes } := by
          simp [Response.read, hphase, houtcome, hbody]
        rw [Response.readOn, hread]
        refine ih hphase houtcome ?_ ?_ ?_
        · simpa [hbody, isFailure] using hany
        · simpa [hbody] using hend
        · simpa [hbody] using hn
      | failure message =>
        have hread : res.read false = some { res with body := rest, outcome := some .failed } := by
          simp [Response.read, hphase, houtcome, hbody]
        have hstop : ∀ k, Response.readOn k { res with body := rest, outcome := some .failed } =
            { res with body := rest, outcome := some .failed } := by
          intro k
          cases k <;> simp [Response.readOn, Response.read]
        rw [Response.readOn, hread]
        dsimp only
        rw [hstop]
      | finished => simp [hbody] at hend

/-- A request that went with its lane and whose end was not received: the error is in the channel. -/
theorem Good.failure_of_lost {v : View} (hv : Good v) (hlive : v.response.live) (hpending : v.response.pending = false)
    (hend : ∀ f ∈ v.response.received, f.kind ≠ .responseEnd) :
    v.response.body.any BodyItem.isFailure = true ∧ .finished ∉ v.response.body := by
  have hnone : finished ∉ itemsOf v.response.received := by
    intro hmem
    obtain ⟨f, hf, hitem⟩ := mem_filterMap.mp hmem
    refine hend f hf ?_
    unfold frameItem at hitem
    split at hitem <;> simp_all
  obtain ⟨chunks, kept, last, hitems, -, -, ⟨message, hbody⟩ | ⟨rfl, hwhy⟩⟩ := hv.lost hlive hpending
  · have hkept : finished ∉ kept := fun h => hnone (by simp [hitems, h])
    exact ⟨by simp [hbody, isFailure], by simpa [hbody] using hkept⟩
  · have hkept : finished ∉ v.response.body := fun h => hnone (by simp [hitems, h])
    exact ⟨hwhy.resolve_left hnone, hkept⟩

/-- **A response that ends cleanly is complete.** As long as the loss of a lane is heard, a reader that ends cleanly has
read the payload of the response up to its end frame. If the lane went first, the reader comes to an error. -/
theorem clean_end_complete {validHeader : String × String → Bool} {s : Primary} {r : ℕ} {req : Request}
    (h : (registry validHeader).Reach LossHeard {} s) (hreq : s.requests r = some req) :
    (req.response.outcome = some .eof → Ends req.response.received req.response.got) ∧
    (req.response.phase = .reading → req.response.outcome = none → req.response.pending = false →
      (∀ f ∈ req.response.received, f.kind ≠ .responseEnd) →
        (req.response.readOn req.response.body.length).outcome = some .failed) := by
  have hgood : Good (s.view r req) := (sound_of_reach h).good r req hreq
  refine ⟨hgood.ended, fun hphase houtcome hpending hend => ?_⟩
  have hlive : req.response.live := by
    have hstart : req.response.start = some (.ok ()) := hgood.started hphase
    exact ⟨by simp [hphase], houtcome, by simp [hstart, Except.isOk, Except.toBool]⟩
  obtain ⟨hany, hnone⟩ := hgood.failure_of_lost hlive hpending hend
  exact readOn_failed hphase houtcome hany hnone (Nat.le_refl _)

def okStart : Frame := { kind := .responseStart, requestId := 0, status := some 200 }

/-- A request whose response has started. -/
def started : List PrimaryAct :=
  [.beginSend "GET" "/object" [] none ⟨[], .clean⟩ (.direct ⟨[], .clean⟩), .queueStart 0, .sendBody 0 0,
    .forward, .forward, .receive okStart, .takeStart 0]

theorem clean_end_complete_one_chunk :
    ∃ s req, (registry fun _ => true).Reach LossHeard {} s ∧ s.requests 0 = some req ∧
      req.response.outcome = some .eof ∧ req.response.got = [7] ∧ Ends req.response.received req.response.got := by
  have hrun : (((registry fun _ => true).run LossHeard
      (started ++ [.receive (.responseBody 0 [7]), .deliver, .receive (.responseEnd 0), .deliver, .read 0, .stopLoop,
        .unregister, .dropQueue, .read 0]) {}).bind fun s => (s.requests 0).map fun req =>
        (req.response.outcome, req.response.got)) = some (some .eof, [7]) := by decide
  obtain ⟨s, hs, hreq⟩ := bind_eq_some_iff.mp hrun
  obtain ⟨req, hreq, houtcome, hgot⟩ := map_pair_eq_some hreq
  have hreach := Lts.reach_of_run hs
  exact ⟨s, req, hreach, hreq, houtcome, hgot, (clean_end_complete hreach hreq).1 houtcome⟩

/-- Sixteen chunks fill the channel, the lane goes, and the reader ends cleanly without the end frame. -/
theorem clean_end_truncated :
    ¬ ∀ (s : Primary) (r : ℕ) (req : Request), (registry fun _ => true).Reach Lts.free {} s → s.requests r = some req →
      req.response.outcome = some .eof → Ends req.response.received req.response.got := by
  intro hall
  have hrun : (((registry fun _ => true).run Lts.free
      (started ++ (List.replicate 16 [.receive (.responseBody 0 [7]), .deliver]).flatten ++
        [.stopLoop, .unregister] ++ List.replicate 17 (.read 0)) {}).bind fun s => (s.requests 0).map fun req =>
        (req.response.outcome, req.response.received.any fun f => f.kind = .responseEnd)) =
        some (some .eof, false) := by decide
  obtain ⟨s, hs, hreq⟩ := bind_eq_some_iff.mp hrun
  obtain ⟨req, hreq, houtcome, hnone⟩ := map_pair_eq_some hreq
  obtain ⟨before, last, after, hreceived, hkind, -⟩ := hall s 0 req (Lts.reach_of_run hs) hreq houtcome
  simp [hreceived, hkind] at hnone

end AsterDrive.Tunnel
