import AsterDrive.Errors
import AsterDrive.Lib.Lts
import AsterDrive.Tunnel.Frame
import Mathlib.Logic.Function.Basic

/-!
# Tunnel/Registry — the primary's side of a streaming lane

`tunnel/server/registry/streaming.rs` and the lane loop of `tunnel/server/mod.rs`, for one lane. The
functions are cut at their awaits: a step is what one task does between two of them. A request is what
`send_stream` sets up (`Response`: the entry of `stream_pending`, the two channels of the response and
their reader) and the task that sends its body (`Upload`).

Four things move on their own: the future of `send_stream` with the reader that it returns, the body
task, the tasks that `spawn_stream_abort_to_follower` and the drop of a reader leave behind, and the lane
loop, which may stop at any time (`stopLoop`). What follows is the drop of its registration guard
(`unregister`) and of its end of the request channel (`dropQueue`).

`original`, `sent` and `received` are ghosts: the body as it was given to the first node, the frames of
the request that were queued, and those that the lane loop took from the follower.
-/

namespace AsterDrive.Tunnel

open Option

/-! ### The body of a request -/

inductive Ending
  | clean | fails
  deriving DecidableEq

/-- What is left of a byte stream, and how it ends. -/
structure Source where
  rest : List UInt8
  ending : Ending
  deriving DecidableEq

/-- The reader that `send_stream` is given. -/
inductive BodyReader
  /-- the caller's own -/
  | direct (source : Source)
  /-- `bridge_payload`: what the HTTP payload still yields, the bytes in the duplex pipe, and whether the
  writer is there -/
  | bridged (payload : Source) (buffer : List UInt8) (writer : Bool)
  deriving DecidableEq

/-- What a read returns: some bytes, no bytes at the end, or an error. -/
inductive ReadResult
  | bytes (chunk : List UInt8)
  | eof
  | error

/-- A read takes between one byte and a whole buffer of what is there. -/
def takeBytes (n : ℕ) (available : List UInt8) : Option (List UInt8 × List UInt8) :=
  if 0 < n ∧ n ≤ remoteTunnelStreamChunkSize ∧ n ≤ available.length then
    some (available.take n, available.drop n)
  else none

/-- `read`; `none`: nothing is there yet. -/
def BodyReader.read (n : ℕ) : BodyReader → Option (ReadResult × BodyReader)
  | direct ⟨[], .clean⟩ => some (.eof, direct ⟨[], .clean⟩)
  | direct ⟨[], .fails⟩ => some (.error, direct ⟨[], .fails⟩)
  | direct ⟨rest, ending⟩ => (takeBytes n rest).map fun (chunk, rest) => (.bytes chunk, direct ⟨rest, ending⟩)
  | bridged payload [] false => some (.eof, bridged payload [] false)
  | bridged _ [] true => none
  | bridged payload buffer writer =>
    (takeBytes n buffer).map fun (chunk, buffer) => (.bytes chunk, bridged payload buffer writer)

/-- What the task of `bridge_payload` does next. -/
inductive BridgeAct
  /-- a chunk of the payload goes into the pipe -/
  | chunk (n : ℕ)
  /-- the payload is over -/
  | finish
  /-- the payload is an error: logged, and the writer is dropped -/
  | fail
  /-- the connection that the payload comes from is lost -/
  | disconnect
  deriving DecidableEq

/-- `bridge_payload`. The payload is the body of an HTTP request: it ends when the sender's body ends, and it
is an error when the sender's body is one or the connection breaks. -/
def BodyReader.bridge : BridgeAct → BodyReader → Option BodyReader
  | .chunk n, bridged ⟨rest, ending⟩ buffer true =>
    if 0 < n ∧ n ≤ rest.length ∧ buffer.length + n ≤ remoteTunnelProxyBodyBridgeCapacity then
      some (bridged ⟨rest.drop n, ending⟩ (buffer ++ rest.take n) true)
    else none
  | .finish, bridged ⟨[], .clean⟩ buffer true => some (bridged ⟨[], .clean⟩ buffer false)
  | .fail, bridged ⟨[], .fails⟩ buffer true => some (bridged ⟨[], .fails⟩ buffer false)
  | .disconnect, bridged _ buffer true => some (bridged ⟨[], .fails⟩ buffer true)
  | _, _ => none

/-- The task that `send_stream` spawns for the body. -/
inductive BodyTask
  | unstarted
  | sending
  /-- `send_stream_request_body` has failed, the error frame is still to be sent -/
  | reporting (message : String)
  | finished
  deriving DecidableEq

structure Upload where
  original : Source
  reader : BodyReader
  task : BodyTask := .unstarted
  sent : List Frame := []

/-! ### The response of a request -/

/-- `PendingStreamBodyFrame`. -/
inductive BodyItem
  | chunk (bytes : List UInt8)
  | failure (message : String)
  | finished

/-- Where the future of `send_stream` is. -/
inductive SendPhase
  /-- it waits for room for the start frame -/
  | starting
  /-- it waits for `start_rx` -/
  | awaiting
  /-- it has returned a reader, which still exists -/
  | reading
  /-- it has failed, or it or its reader was dropped -/
  | over
  deriving DecidableEq

/-- How a reader ends. -/
inductive ReadEnd
  | eof | failed
  deriving DecidableEq

/-- A request as the response side sees it: `pending` is the entry in `stream_pending`, `startTx` the
start sender in it, `start` what was sent with it, `body` the body channel. -/
structure Response where
  phase : SendPhase := .starting
  pending : Bool := true
  startTx : Bool := true
  start : Option (Except String Unit) := none
  responseComplete : Bool := false
  body : List BodyItem := []
  got : List UInt8 := []
  outcome : Option ReadEnd := none
  received : List Frame := []

namespace Response

/-- `body_rx` has not been dropped. The stream drops it when it ends. -/
def receiving (res : Response) : Bool :=
  match res.phase with
  | .starting | .awaiting => true
  | .reading => res.outcome ≠ some .eof
  | .over => false

/-- `start_rx` has not been dropped. -/
def awaitsStart (res : Response) : Bool := res.phase = .starting ∨ res.phase = .awaiting

def hasRoom (res : Response) : Bool := res.body.length < remoteTunnelStreamChannelCapacity

/-- The removal from `stream_pending`. -/
def removePending (res : Response) : Response := { res with pending := false }

/-- The future of `send_stream` fails, or is dropped. -/
def finish (res : Response) : Response := { res with phase := .over }

/-- A frame of the request is taken from the lane, whatever becomes of it. -/
def logged (frame : Frame) (res : Response) : Response := { res with received := res.received ++ [frame] }

/-- What `fail_stream_requests_for_lane` does to one request. The error goes in with `try_send`. -/
def failFor (message : String) (res : Response) : Response :=
  if res.pending then
    if res.startTx then { res with pending := false, startTx := false, start := some (.error message) }
    else if res.receiving ∧ res.hasRoom then
      { res with pending := false, body := res.body ++ [.failure message] }
    else { res with pending := false }
  else res

/-- The next read of the response reader. `senders`: somebody still has a `body_tx`. -/
def read (senders : Bool) (res : Response) : Option Response :=
  if res.phase = .reading ∧ res.outcome = none then
    match res.body with
    | .chunk bytes :: rest => some { res with body := rest, got := res.got ++ bytes }
    | .failure _ :: rest => some { res with body := rest, outcome := some .failed }
    | .finished :: rest => some { res with body := rest, outcome := some .eof }
    | [] => if senders then none else some { res with outcome := some .eof }
  else none

end Response

structure Request where
  /-- the data of the start frame -/
  start : Frame
  response : Response := {}
  upload : Upload

/-! ### The lane -/

/-- The lane loop runs; it has stopped and the registration guard is still there; the guard is dropped;
the receiver of the request channel is dropped too. -/
inductive LaneStatus
  | running | closing | unregistered | closed
  deriving DecidableEq

/-- `complete_stream_frame` at the await of `body_tx.send`. `abort`: what the follower is told if the
receiver is gone, where it is told. -/
structure Handling where
  requestId : ℕ
  item : BodyItem
  abort : Option String

/-- A spawned task that has an error frame to send; `lease`: it keeps the pending entry, and with it the
lane, until then. -/
structure Abort where
  requestId : ℕ
  message : String
  lease : Bool

structure Primary where
  status : LaneStatus := .running
  busy : Bool := false
  requestQueue : List Frame := []
  handling : Option Handling := none
  requests : ℕ → Option Request := fun _ => none
  next : ℕ := 0
  aborts : List Abort := []

namespace Primary

def setRequest (s : Primary) (r : ℕ) (req : Request) : Primary :=
  { s with requests := Function.update s.requests r (some req) }

def setResponse (s : Primary) (r : ℕ) (req : Request) (res : Response) : Primary :=
  s.setRequest r { req with response := res }

/-- A frame of request `r` goes into the request channel. -/
def enqueue (s : Primary) (r : ℕ) (req : Request) (frame : Frame) : Primary :=
  { s.setRequest r { req with upload.sent := req.upload.sent ++ [frame] } with
    requestQueue := s.requestQueue ++ [frame] }

def queueHasRoom (s : Primary) : Bool := s.requestQueue.length < remoteTunnelStreamChannelCapacity

/-- The item of request `r` that the lane loop is about to deliver. -/
def inflight (s : Primary) (r : ℕ) : List BodyItem :=
  match s.handling with
  | some h => if h.requestId = r then [h.item] else []
  | none => []

/-- The pending entry of a request goes, and its lease with it. -/
def dropPending (s : Primary) (r : ℕ) (req : Request) : Primary :=
  { s.setResponse r req req.response.removePending with busy := s.busy && !req.response.pending }

end Primary

section Frames

-- `header_pairs_to_map` accepts the header
variable (validHeader : String × String → Bool)

/-- What `complete_stream_frame` has come to. -/
inductive Completion
  | done (result : Except AsterError Unit)
  | awaiting

def responseReaderClosed : String := "reverse tunnel local response reader closed"

/-- `char::is_whitespace`. -/
def isWhitespace (c : Char) : Bool :=
  let n := c.toNat
  (9 ≤ n ∧ n ≤ 13) ∨ n = 32 ∨ n = 0x85 ∨ n = 0xa0 ∨ n = 0x1680 ∨ (0x2000 ≤ n ∧ n ≤ 0x200a) ∨ n = 0x2028 ∨ n = 0x2029 ∨
    n = 0x202f ∨ n = 0x205f ∨ n = 0x3000

/-- The text of an error frame, or its default where there is none or it is blank. -/
def errorMessage (frame : Frame) : String :=
  (frame.message.filter fun m => !m.toList.all isWhitespace).getD "reverse tunnel streaming lane reported error"

open AsterError in
/-- `complete_stream_frame` on a response start. -/
def acceptStart (s : Primary) (req : Request) (frame : Frame) : Primary × Completion :=
  match frame.status with
  | none => (s, .done (.error (validationError { message := "stream response_start missing status" })))
  | some status =>
    if status < 100 ∨ 1000 ≤ status then
      (s, .done (.error (ofStorage .misconfigured "reverse tunnel stream returned invalid HTTP status")))
    else if !frame.headers.all validHeader then
      (s, .done (.error (ofStorage .misconfigured "reverse tunnel returned invalid header")))
    else if !req.response.startTx then
      (s, .done (.error (validationError { message := "reverse tunnel streaming response already started" })))
    else
      let taken := { req.response with startTx := false }
      if req.response.awaitsStart then
        (s.setResponse frame.requestId req { taken with start := some (.ok ()) }, .done (.ok ()))
      else
        ({ s.setResponse frame.requestId req taken with
            aborts := s.aborts ++ [⟨frame.requestId, "reverse tunnel local response reader closed before start", false⟩] },
          .done (.error (validationError
            { message := "reverse tunnel streaming response receiver closed before start" })))

open AsterError in
/-- `complete_stream_frame` for a request that is pending. -/
def acceptFrame (s : Primary) (req : Request) (frame : Frame) : Primary × Completion :=
  match frame.kind with
  | .responseStart => acceptStart validHeader s req frame
  | .responseBody =>
    ({ s with handling := some ⟨frame.requestId, .chunk frame.body, some responseReaderClosed⟩ }, .awaiting)
  | .responseEnd =>
    ({ s.setResponse frame.requestId req { req.response with responseComplete := true } with
        handling := some ⟨frame.requestId, .finished, some responseReaderClosed⟩ }, .awaiting)
  | .error =>
    let error := ofStorage .transient (errorMessage frame)
    if req.response.startTx then
      (s.setResponse frame.requestId req { req.response with
            startTx := false
            start := if req.response.awaitsStart then some (.error (errorMessage frame)) else none },
        .done (.error error))
    else ({ s with handling := some ⟨frame.requestId, .failure (errorMessage frame), none⟩ }, .awaiting)
  | _ => (s, .done (.error (validationError { message := "invalid reverse tunnel streaming response frame" })))

open AsterError in
/-- `complete_stream_frame`, up to its await. Every entry of the registry that the model has belongs to the lane
and the node that the frame comes from. -/
def completeStreamFrame (s : Primary) (frame : Frame) : Primary × Completion :=
  match (s.requests frame.requestId).filter fun req => req.response.pending with
  | none => (s, .done (.error (validationError { message := "reverse tunnel streaming request is no longer pending" })))
  | some req => acceptFrame validHeader s req frame

end Frames

namespace Primary

/-- The await of `body_tx.send`: it goes on when there is room, and when the receiver is gone. -/
def finishBodySend (s : Primary) : Option Primary :=
  match s.handling with
  | none => none
  | some h =>
    match s.requests h.requestId with
    | none => none
    | some req =>
      if !req.response.receiving then
        some { s with
          handling := none
          aborts := s.aborts ++ (h.abort.map fun m => ⟨h.requestId, m, false⟩).toList }
      else if req.response.hasRoom then
        some { s.setResponse h.requestId req { req.response with body := req.response.body ++ [h.item] } with
          handling := none }
      else none

def logReceived (s : Primary) (frame : Frame) : Primary :=
  match s.requests frame.requestId with
  | none => s
  | some req => s.setResponse frame.requestId req (req.response.logged frame)

/-- `fail_stream_requests_for_lane`. -/
def failStreamRequestsForLane (s : Primary) (message : String) : Primary :=
  { s with requests := fun r => (s.requests r).map fun req =>
      { req with response := req.response.failFor message } }

/-- `send_stream` has its lane and registers the request. -/
def beginSend (s : Primary) (method pathAndQuery : String) (headers : List (String × String))
    (contentLength : Option ℕ) (original : Source) (reader : BodyReader) : Option Primary :=
  if s.busy then none
  else
    some { s with
      busy := true
      next := s.next + 1
      requests := Function.update s.requests s.next (some {
        start := {
          kind := .requestStart
          requestId := s.next
          method := some method
          pathAndQuery := some pathAndQuery
          headers
          contentLength }
        upload := { original, reader } }) }

/-- The await of `request_tx.send` for the start frame. -/
def queueStart (s : Primary) (r : ℕ) (req : Request) : Option Primary :=
  if req.response.phase ≠ .starting then none
  else if s.status = .closed then
    some (s.dropPending r { req with response := req.response.finish })
  else if s.queueHasRoom then
    some (s.enqueue r { req with response.phase := .awaiting, upload.task := .sending } req.start)
  else none

/-- `send_stream_request_body`, one turn: a read, and the frame that goes into the channel for it. -/
def sendBody (s : Primary) (r : ℕ) (req : Request) (n : ℕ) : Option Primary :=
  if req.upload.task ≠ .sending then none
  else
    match req.upload.reader.read n with
    | none => none
    | some (.error, reader) =>
      some (s.setRequest r { req with
        upload.reader := reader
        upload.task := .reporting "read reverse tunnel streaming request body" })
    | some (.bytes chunk, reader) =>
      if s.status = .closed then
        some (s.setRequest r { req with
          upload.reader := reader
          upload.task := .reporting "reverse tunnel streaming lane closed while sending body" })
      else if s.queueHasRoom then
        some (s.enqueue r { req with upload.reader := reader } (.requestBody r chunk))
      else none
    | some (.eof, reader) =>
      if s.status = .closed then
        some (s.setRequest r { req with
          upload.reader := reader
          upload.task := .reporting "reverse tunnel streaming lane closed before request end" })
      else if s.queueHasRoom then
        some (s.enqueue r { req with upload.reader := reader, upload.task := .finished } (.requestEnd r))
      else none

/-- The error frame of the body task. -/
def reportBody (s : Primary) (r : ℕ) (req : Request) : Option Primary :=
  match req.upload.task with
  | .reporting message =>
    if s.status = .closed then some (s.setRequest r { req with upload.task := .finished })
    else if s.queueHasRoom then
      some (s.enqueue r { req with upload.task := .finished } (.ofError r message))
    else none
  | _ => none

/-- `start_rx` yields. -/
def takeStart (s : Primary) (r : ℕ) (req : Request) : Option Primary :=
  if req.response.phase ≠ .awaiting then none
  else
    match req.response.start with
    | some (.ok ()) => some (s.setResponse r req { req.response with phase := .reading })
    | some (.error _) => some (s.dropPending r { req with response := req.response.finish })
    | none =>
      -- the sender was dropped
      if req.response.pending then none
      else some (s.setResponse r req req.response.finish)

/-- `REMOTE_TUNNEL_REQUEST_TIMEOUT` passes before `start_rx` yields. -/
def timeoutStart (s : Primary) (r : ℕ) (req : Request) : Option Primary :=
  if req.response.phase = .awaiting ∧ req.response.start = none then
    some (s.dropPending r { req with response := req.response.finish })
  else none

/-- The caller drops the future of `send_stream` at one of its awaits. The entry stays. -/
def cancelSend (s : Primary) (r : ℕ) (req : Request) : Option Primary :=
  if req.response.awaitsStart then some (s.setResponse r req req.response.finish) else none

/-- The drop of the reader. -/
def dropReader (s : Primary) (r : ℕ) (req : Request) : Option Primary :=
  if req.response.phase ≠ .reading then none
  else if !req.response.pending then some (s.setResponse r req req.response.finish)
  else if req.response.responseComplete then
    some (s.dropPending r { req with response := req.response.finish })
  else
    some { s.setResponse r req req.response.finish.removePending with
      aborts := s.aborts ++ [⟨r, responseReaderClosed, true⟩] }

/-- A spawned task ends, and gives up the lease that it has. -/
def endAbort (s : Primary) (i : ℕ) (abort : Abort) : Primary :=
  { s with aborts := s.aborts.eraseIdx i, busy := s.busy && !abort.lease }

/-- One of the spawned tasks sends its error frame, or finds the channel closed. -/
def sendAbort (s : Primary) (i : ℕ) : Option Primary :=
  match s.aborts[i]? with
  | none => none
  | some abort =>
    if s.status = .closed then some (s.endAbort i abort)
    else if s.queueHasRoom then
      match s.requests abort.requestId with
      | none => none
      | some req => some ((s.endAbort i abort).enqueue abort.requestId req (.ofError abort.requestId abort.message))
    else none

end Primary

inductive PrimaryAct
  | beginSend (method pathAndQuery : String) (headers : List (String × String)) (contentLength : Option ℕ)
      (original : Source) (reader : BodyReader)
  | queueStart (r : ℕ)
  | bridge (r : ℕ) (act : BridgeAct)
  | sendBody (r n : ℕ)
  | reportBody (r : ℕ)
  | takeStart (r : ℕ)
  | timeoutStart (r : ℕ)
  | cancelSend (r : ℕ)
  | read (r : ℕ)
  | dropReader (r : ℕ)
  | sendAbort (i : ℕ)
  /-- the lane loop takes a frame from the request channel -/
  | forward
  /-- it takes a frame from the follower -/
  | receive (frame : Frame)
  | deliver
  | stopLoop
  | unregister
  | dropQueue
  deriving DecidableEq

/-- A reader that `send_stream` may be given for a source. -/
def BodyReader.opens (source : Source) (reader : BodyReader) : Prop :=
  reader = .direct source ∨ reader = .bridged source [] true

instance (source : Source) (reader : BodyReader) : Decidable (BodyReader.opens source reader) :=
  inferInstanceAs (Decidable (_ ∨ _))

section Step

variable (validHeader : String × String → Bool)

/-- The part of a step that is about one request. -/
def Primary.onRequest (s : Primary) (r : ℕ) (f : Request → Option Primary) : Option Primary := (s.requests r).bind f

/-- The lane loop takes a frame; what `complete_stream_frame` returns is only logged. -/
def Primary.takeFrame (s : Primary) (frame : Frame) : Primary :=
  (completeStreamFrame validHeader (s.logReceived frame) frame).1

/-- One step of one of the primary's tasks. -/
def primaryStep (s : Primary) : PrimaryAct → Option Primary
  | .beginSend method pathAndQuery headers contentLength original reader =>
    if reader.opens original then s.beginSend method pathAndQuery headers contentLength original reader else none
  | .queueStart r => s.onRequest r (s.queueStart r)
  | .bridge r act => s.onRequest r fun req =>
    (req.upload.reader.bridge act).map fun reader => s.setRequest r { req with upload.reader := reader }
  | .sendBody r n => s.onRequest r fun req => s.sendBody r req n
  | .reportBody r => s.onRequest r (s.reportBody r)
  | .takeStart r => s.onRequest r (s.takeStart r)
  | .timeoutStart r => s.onRequest r (s.timeoutStart r)
  | .cancelSend r => s.onRequest r (s.cancelSend r)
  | .read r => s.onRequest r fun req =>
    (req.response.read (req.response.pending || !(s.inflight r).isEmpty)).map (s.setResponse r req)
  | .dropReader r => s.onRequest r (s.dropReader r)
  | .sendAbort i => s.sendAbort i
  | .forward =>
    if s.status = .running ∧ s.handling = none ∧ s.requestQueue ≠ [] then
      some { s with requestQueue := s.requestQueue.tail }
    else none
  | .receive frame =>
    if s.status = .running ∧ s.handling = none then
      some (s.takeFrame validHeader frame)
    else none
  | .deliver => if s.status = .running then s.finishBodySend else none
  | .stopLoop => if s.status = .running then some { s with status := .closing, handling := none } else none
  | .unregister =>
    if s.status = .closing then
      some { s.failStreamRequestsForLane "reverse tunnel streaming lane closed" with status := .unregistered }
    else none
  | .dropQueue =>
    if s.status = .unregistered then some { s with status := .closed, requestQueue := [] } else none

def registry : Lts Primary PrimaryAct := ⟨primaryStep validHeader⟩

end Step

/-! ### What each operation can do -/

namespace Primary

variable {s s' : Primary} {r n i : ℕ} {req : Request}

theorem onRequest_eq_some {f : Request → Option Primary} (h : s.onRequest r f = some s') :
    ∃ req, s.requests r = some req ∧ f req = some s' := by
  simpa [onRequest, bind_eq_some_iff] using h

theorem queueStart_cases (h : s.queueStart r req = some s') : req.response.phase = .starting ∧
      (s.status = .closed ∧ s' = s.dropPending r { req with response := req.response.finish } ∨ s.status ≠ .closed ∧
          s' = s.enqueue r { req with response.phase := .awaiting, upload.task := .sending } req.start) := by
  unfold queueStart at h
  split_ifs at h with hphase hclosed hroom
  · exact ⟨not_not.mp hphase, .inl ⟨hclosed, (some.inj h).symm⟩⟩
  · exact ⟨not_not.mp hphase, .inr ⟨hclosed, (some.inj h).symm⟩⟩

theorem sendBody_cases (h : s.sendBody r req n = some s') :
    req.upload.task = .sending ∧ ∃ result reader, req.upload.reader.read n = some (result, reader) ∧
      ((result = .error ∨ s.status = .closed) ∧
          (∃ message, s' = s.setRequest r { req with upload.reader := reader, upload.task := .reporting message }) ∨
        s.status ≠ .closed ∧ (∃ chunk, result = .bytes chunk ∧
          s' = s.enqueue r { req with upload.reader := reader } (.requestBody r chunk)) ∨
        s.status ≠ .closed ∧ result = .eof ∧
          s' = s.enqueue r { req with upload.reader := reader, upload.task := .finished } (.requestEnd r)) := by
  by_cases htask : req.upload.task = .sending
  swap
  · simp [sendBody, htask] at h
  rw [sendBody, if_neg (not_not.mpr htask)] at h
  refine ⟨htask, ?_⟩
  cases hread : req.upload.reader.read n with
  | none => simp [hread] at h
  | some p =>
    obtain ⟨result, reader⟩ := p
    refine ⟨result, reader, rfl, ?_⟩
    cases result with simp only [hread] at h
    | error =>
      exact .inl ⟨.inl rfl, _, (some.inj h).symm⟩
    | bytes chunk =>
      split_ifs at h with hclosed hroom
      · exact .inl ⟨.inr hclosed, _, (some.inj h).symm⟩
      · exact .inr (.inl ⟨hclosed, chunk, rfl, (some.inj h).symm⟩)
    | eof =>
      split_ifs at h with hclosed hroom
      · exact .inl ⟨.inr hclosed, _, (some.inj h).symm⟩
      · exact .inr (.inr ⟨hclosed, rfl, (some.inj h).symm⟩)

theorem reportBody_cases (h : s.reportBody r req = some s') : ∃ message, req.upload.task = .reporting message ∧
      (s.status = .closed ∧ s' = s.setRequest r { req with upload.task := .finished } ∨
        s.status ≠ .closed ∧ s' = s.enqueue r { req with upload.task := .finished } (.ofError r message)) := by
  unfold reportBody at h
  cases htask : req.upload.task with
  | reporting message =>
    simp only [htask] at h
    refine ⟨message, rfl, ?_⟩
    split_ifs at h with hclosed hroom
    · exact .inl ⟨hclosed, (some.inj h).symm⟩
    · exact .inr ⟨hclosed, (some.inj h).symm⟩
  | _ => simp [htask] at h

theorem takeStart_cases (h : s.takeStart r req = some s') : req.response.phase = .awaiting ∧
      (req.response.start = some (.ok ()) ∧ s' = s.setResponse r req { req.response with phase := .reading } ∨
        (∃ message, req.response.start = some (.error message)) ∧
          s' = s.dropPending r { req with response := req.response.finish } ∨
        req.response.start = none ∧ req.response.pending = false ∧ s' = s.setResponse r req req.response.finish) := by
  by_cases hphase : req.response.phase = .awaiting
  swap
  · simp [takeStart, hphase] at h
  rw [takeStart, if_neg (not_not.mpr hphase)] at h
  refine ⟨hphase, ?_⟩
  split at h <;> rename_i hstart
  · exact .inl ⟨hstart, (some.inj h).symm⟩
  · exact .inr (.inl ⟨⟨_, hstart⟩, (some.inj h).symm⟩)
  · rw [ite_none_left_eq_some] at h
    exact .inr (.inr ⟨hstart, by simpa using h.1, (some.inj h.2).symm⟩)

theorem timeoutStart_cases (h : s.timeoutStart r req = some s') :
    req.response.phase = .awaiting ∧ req.response.start = none ∧
      s' = s.dropPending r { req with response := req.response.finish } := by
  unfold timeoutStart at h
  split_ifs at h with hphase
  exact ⟨hphase.1, hphase.2, (some.inj h).symm⟩

theorem cancelSend_cases (h : s.cancelSend r req = some s') :
    req.response.awaitsStart = true ∧ s' = s.setResponse r req req.response.finish := by
  unfold cancelSend at h
  split_ifs at h with hphase
  exact ⟨hphase, (some.inj h).symm⟩

theorem dropReader_cases (h : s.dropReader r req = some s') : req.response.phase = .reading ∧
      (req.response.pending = false ∧ s' = s.setResponse r req req.response.finish ∨
        req.response.pending = true ∧ req.response.responseComplete = true ∧
          s' = s.dropPending r { req with response := req.response.finish } ∨
        req.response.pending = true ∧ req.response.responseComplete = false ∧
          s' = { s.setResponse r req req.response.finish.removePending with
            aborts := s.aborts ++ [⟨r, responseReaderClosed, true⟩] }) := by
  unfold dropReader at h
  split_ifs at h with hphase hpending hcomplete
  · exact ⟨not_not.mp hphase, .inl ⟨by simpa using hpending, (some.inj h).symm⟩⟩
  · exact ⟨not_not.mp hphase, .inr (.inl ⟨by simpa using hpending, hcomplete, (some.inj h).symm⟩)⟩
  · exact ⟨not_not.mp hphase, .inr (.inr ⟨by simpa using hpending, by simpa using hcomplete, (some.inj h).symm⟩)⟩

/-- One of the spawned tasks is done, and has queued its frame unless the channel is closed. -/
theorem sendAbort_cases (h : s.sendAbort i = some s') : ∃ abort, s.aborts[i]? = some abort ∧
      (s.status = .closed ∧ s' = s.endAbort i abort ∨
        s.status ≠ .closed ∧ ∃ req, s.requests abort.requestId = some req ∧
          s' = (s.endAbort i abort).enqueue abort.requestId req (.ofError abort.requestId abort.message)) := by
  unfold sendAbort at h
  cases habort : s.aborts[i]? with
  | none => simp [habort] at h
  | some abort =>
    simp only [habort] at h
    refine ⟨abort, rfl, ?_⟩
    by_cases hclosed : s.status = .closed
    · rw [if_pos hclosed] at h
      exact .inl ⟨hclosed, (some.inj h).symm⟩
    · rw [if_neg hclosed, ite_none_right_eq_some] at h
      cases hreq : s.requests abort.requestId with
      | none => simp [hreq] at h
      | some req =>
        simp only [hreq] at h
        exact .inr ⟨hclosed, req, rfl, (some.inj h.2).symm⟩

theorem finishBodySend_cases (h : s.finishBodySend = some s') :
    ∃ hd req, s.handling = some hd ∧ s.requests hd.requestId = some req ∧ (req.response.receiving = false ∧
          s' = { s with handling := none, aborts := s.aborts ++ (hd.abort.map fun m => ⟨hd.requestId, m, false⟩).toList } ∨
        req.response.receiving = true ∧ req.response.hasRoom = true ∧
          s' = { s.setResponse hd.requestId req { req.response with body := req.response.body ++ [hd.item] } with
            handling := none }) := by
  unfold finishBodySend at h
  cases hhandling : s.handling with
  | none => simp [hhandling] at h
  | some hd =>
    cases hreq : s.requests hd.requestId with
    | none => simp [hhandling, hreq] at h
    | some req =>
      simp only [hhandling, hreq] at h
      refine ⟨hd, req, rfl, hreq, ?_⟩
      split_ifs at h with hreceiving hroom
      · exact .inl ⟨by simpa using hreceiving, (some.inj h).symm⟩
      · exact .inr ⟨by simpa using hreceiving, hroom, (some.inj h).symm⟩

/-! ### What a step can do -/

/-- What the body task of a request, or the bridge, makes of its upload, with the frame that goes into the channel. -/
inductive Uploading (r : ℕ) (req : Request) : PrimaryAct → Upload → Option Frame → Prop
  | bridged (act : BridgeAct) (reader : BodyReader) (h : req.upload.reader.bridge act = some reader) :
      Uploading r req (.bridge r act) { req.upload with reader } none
  | gaveUp (n : ℕ) (result : ReadResult) (reader : BodyReader) (message : String) (htask : req.upload.task = .sending)
      (hread : req.upload.reader.read n = some (result, reader)) :
      Uploading r req (.sendBody r n) { req.upload with reader, task := .reporting message } none
  | chunk (n : ℕ) (bytes : List UInt8) (reader : BodyReader) (htask : req.upload.task = .sending)
      (hread : req.upload.reader.read n = some (.bytes bytes, reader)) :
      Uploading r req (.sendBody r n) { req.upload with reader } (some (.requestBody r bytes))
  | ended (n : ℕ) (reader : BodyReader) (htask : req.upload.task = .sending)
      (hread : req.upload.reader.read n = some (.eof, reader)) :
      Uploading r req (.sendBody r n) { req.upload with reader, task := .finished } (some (.requestEnd r))
  | unreported (message : String) (htask : req.upload.task = .reporting message) :
      Uploading r req (.reportBody r) { req.upload with task := .finished } none
  | reported (message : String) (htask : req.upload.task = .reporting message) :
      Uploading r req (.reportBody r) { req.upload with task := .finished } (some (.ofError r message))

theorem Uploading.requestId {r : ℕ} {req : Request} {a : PrimaryAct} {u : Upload} {frame : Frame}
    (h : Uploading r req a u (some frame)) : frame.requestId = r := by
  cases h with
  | chunk | ended | reported => rfl

/-- Every step, by what it does. -/
inductive Effect (validHeader : String × String → Bool) (s : Primary) : PrimaryAct → Primary → Prop
  | began {method pathAndQuery : String} {headers : List (String × String)} {contentLength : Option ℕ} {original : Source}
      {reader : BodyReader} {s' : Primary} (hopens : reader.opens original)
      (h : s.beginSend method pathAndQuery headers contentLength original reader = some s') :
      Effect validHeader s (.beginSend method pathAndQuery headers contentLength original reader) s'
  | queued {r : ℕ} {req : Request} (hreq : s.requests r = some req) (hphase : req.response.phase = .starting)
      (hopen : s.status ≠ .closed) : Effect validHeader s (.queueStart r)
        (s.enqueue r { req with response.phase := .awaiting, upload.task := .sending } req.start)
  | upload {a : PrimaryAct} {r : ℕ} {req : Request} {u : Upload} (hreq : s.requests r = some req) (h : Uploading r req a u none) :
      Effect validHeader s a (s.setRequest r { req with upload := u })
  | sent {a : PrimaryAct} {r : ℕ} {req : Request} {u : Upload} {frame : Frame} (hreq : s.requests r = some req)
      (hopen : s.status ≠ .closed) (h : Uploading r req a u (some frame)) :
      Effect validHeader s a (s.enqueue r { req with upload := u } frame)
  | opened {r : ℕ} {req : Request} (hreq : s.requests r = some req) (hphase : req.response.phase = .awaiting)
      (hstart : req.response.start = some (.ok ())) :
      Effect validHeader s (.takeStart r) (s.setResponse r req { req.response with phase := .reading })
  | dropped {a : PrimaryAct} {r : ℕ} {req : Request} (hreq : s.requests r = some req) :
      Effect validHeader s a (s.dropPending r { req with response := req.response.finish })
  | finished {a : PrimaryAct} {r : ℕ} {req : Request} (hreq : s.requests r = some req)
      (hgone : req.response.pending = false ∨ a = .cancelSend r) :
      Effect validHeader s a (s.setResponse r req req.response.finish)
  | read {r : ℕ} {req : Request} {res : Response} (hreq : s.requests r = some req)
      (hread : req.response.read (req.response.pending || !(s.inflight r).isEmpty) = some res) :
      Effect validHeader s (.read r) (s.setResponse r req res)
  | abandoned {r : ℕ} {req : Request} (hreq : s.requests r = some req) (hphase : req.response.phase = .reading) :
      Effect validHeader s (.dropReader r) { s.setResponse r req req.response.finish.removePending with
        aborts := s.aborts ++ [⟨r, responseReaderClosed, true⟩] }
  | abortLost {i : ℕ} {abort : Abort} (habort : s.aborts[i]? = some abort) :
      Effect validHeader s (.sendAbort i) (s.endAbort i abort)
  | abortSent {i : ℕ} {abort : Abort} {req : Request} (habort : s.aborts[i]? = some abort) (hopen : s.status ≠ .closed)
      (hreq : s.requests abort.requestId = some req) : Effect validHeader s (.sendAbort i)
        ((s.endAbort i abort).enqueue abort.requestId req (.ofError abort.requestId abort.message))
  | forwarded : Effect validHeader s .forward { s with requestQueue := s.requestQueue.tail }
  | received {frame : Frame} (hrun : s.status = .running) (hidle : s.handling = none) :
      Effect validHeader s (.receive frame) (s.takeFrame validHeader frame)
  | undelivered {hd : Handling} {req : Request} (hhandling : s.handling = some hd) (hreq : s.requests hd.requestId = some req)
      (hreceiving : req.response.receiving = false) : Effect validHeader s .deliver
        { s with handling := none, aborts := s.aborts ++ (hd.abort.map fun m => ⟨hd.requestId, m, false⟩).toList }
  | delivered {hd : Handling} {req : Request} (hhandling : s.handling = some hd) (hreq : s.requests hd.requestId = some req)
      (hreceiving : req.response.receiving = true) : Effect validHeader s .deliver
        { s.setResponse hd.requestId req { req.response with body := req.response.body ++ [hd.item] } with handling := none }
  | stopped (hrun : s.status = .running) : Effect validHeader s .stopLoop { s with status := .closing, handling := none }
  | unregistered (hclosing : s.status = .closing) : Effect validHeader s .unregister
      { s.failStreamRequestsForLane "reverse tunnel streaming lane closed" with status := .unregistered }
  | queueDropped (hstatus : s.status = .unregistered) :
      Effect validHeader s .dropQueue { s with status := .closed, requestQueue := [] }

theorem effect {validHeader : String × String → Bool} {a : PrimaryAct} (h : primaryStep validHeader s a = some s') :
    Effect validHeader s a s' := by
  cases a with
  | beginSend method pathAndQuery headers contentLength original reader =>
    rw [primaryStep, ite_none_right_eq_some] at h
    exact .began h.1 h.2
  | queueStart r =>
    obtain ⟨req, hreq, h⟩ := onRequest_eq_some h
    obtain ⟨hphase, ⟨-, rfl⟩ | ⟨hopen, rfl⟩⟩ := queueStart_cases h
    · exact .dropped hreq
    · exact .queued hreq hphase hopen
  | bridge r act =>
    obtain ⟨req, hreq, h⟩ := onRequest_eq_some h
    obtain ⟨reader, hbridge, rfl⟩ := map_eq_some_iff.mp h
    exact .upload hreq (.bridged act reader hbridge)
  | sendBody r n =>
    obtain ⟨req, hreq, h⟩ := onRequest_eq_some h
    obtain ⟨htask, result, reader, hread, ⟨-, message, rfl⟩ | ⟨hopen, chunk, rfl, rfl⟩ | ⟨hopen, rfl, rfl⟩⟩ := sendBody_cases h
    · exact .upload hreq (.gaveUp n result reader message htask hread)
    · exact .sent hreq hopen (.chunk n chunk reader htask hread)
    · exact .sent hreq hopen (.ended n reader htask hread)
  | reportBody r =>
    obtain ⟨req, hreq, h⟩ := onRequest_eq_some h
    obtain ⟨message, htask, ⟨-, rfl⟩ | ⟨hopen, rfl⟩⟩ := reportBody_cases h
    · exact .upload hreq (.unreported message htask)
    · exact .sent hreq hopen (.reported message htask)
  | takeStart r =>
    obtain ⟨req, hreq, h⟩ := onRequest_eq_some h
    obtain ⟨hphase, ⟨hstart, rfl⟩ | ⟨-, rfl⟩ | ⟨-, hgone, rfl⟩⟩ := takeStart_cases h
    · exact .opened hreq hphase hstart
    · exact .dropped hreq
    · exact .finished hreq (.inl hgone)
  | timeoutStart r =>
    obtain ⟨req, hreq, h⟩ := onRequest_eq_some h
    obtain ⟨-, -, rfl⟩ := timeoutStart_cases h
    exact .dropped hreq
  | cancelSend r =>
    obtain ⟨req, hreq, h⟩ := onRequest_eq_some h
    obtain ⟨-, rfl⟩ := cancelSend_cases h
    exact .finished hreq (.inr rfl)
  | read r =>
    obtain ⟨req, hreq, h⟩ := onRequest_eq_some h
    obtain ⟨res, hread, rfl⟩ := map_eq_some_iff.mp h
    exact .read hreq hread
  | dropReader r =>
    obtain ⟨req, hreq, h⟩ := onRequest_eq_some h
    obtain ⟨hphase, ⟨hgone, rfl⟩ | ⟨-, -, rfl⟩ | ⟨-, -, rfl⟩⟩ := dropReader_cases h
    · exact .finished hreq (.inl hgone)
    · exact .dropped hreq
    · exact .abandoned hreq hphase
  | sendAbort i =>
    obtain ⟨abort, habort, ⟨-, rfl⟩ | ⟨hopen, req, hreq, rfl⟩⟩ := sendAbort_cases h
    · exact .abortLost habort
    · exact .abortSent habort hopen hreq
  | deliver =>
    rw [primaryStep, ite_none_right_eq_some] at h
    obtain ⟨hd, req, hhandling, hreq, ⟨hreceiving, rfl⟩ | ⟨hreceiving, -, rfl⟩⟩ := finishBodySend_cases h.2
    · exact .undelivered hhandling hreq hreceiving
    · exact .delivered hhandling hreq hreceiving
  | forward | receive frame | stopLoop | unregister | dropQueue =>
    rw [primaryStep, ite_none_right_eq_some] at h
    obtain ⟨hguard, hset⟩ := h
    cases hset
    first
    | exact .forwarded
    | exact .received hguard.1 hguard.2
    | exact .stopped hguard
    | exact .unregistered hguard
    | exact .queueDropped hguard

end Primary

end AsterDrive.Tunnel
