import AsterDrive.Tunnel.Registry

/-!
# Tunnel/Follower — the follower's side of a lane, and the lane between the two

`tunnel/client.rs`: the frame loop of `connect_stream_lane_once`, and under it
`execute_stream_tunnel_request_inner`, `drain_stream_request_body` and `send_stream_response`. The follower
serves one request at a time; what it has to write goes out before it reads again (`outbox`). The local HTTP
request runs on its own: it reads the body channel, it may be dropped, and its response comes when it comes.

`Lane` puts the two sides together with the frames that are on their way. The connection may break, or
either side may leave, at any time; the frames that the other side has not taken by then may be lost.

`accepted` and `sent` are ghosts: what the follower took for a request and what it wrote for it.
-/

namespace AsterDrive.Tunnel

/-- Why the follower left the lane. -/
inductive LaneExit
  /-- the peer broke the protocol -/
  | violation (message : String)
  | failed (message : String)
  /-- shutdown, a close frame or the end of the connection -/
  | closed
  deriving DecidableEq

inductive ServePhase
  | idle
  /-- the loop over the request body -/
  | reading (r : ℕ)
  /-- `response_task` is awaited -/
  | waiting (r : ℕ)
  /-- `send_stream_response` -/
  | responding (r : ℕ)
  /-- `drain_stream_request_body` -/
  | draining (r : ℕ)
  | stopped (exit : LaneExit)
  deriving DecidableEq

/-- The local HTTP request: `tx` is the follower's end of the body channel, `rx` the end that the request reads. -/
structure LocalRequest where
  channel : List (List UInt8) := []
  tx : Bool := true
  rx : Bool := true
  seen : List UInt8 := []
  ended : Bool := false

structure Follower where
  phase : ServePhase := .idle
  outbox : List Frame := []
  locals : ℕ → Option LocalRequest := fun _ => none
  accepted : ℕ → List Frame := fun _ => []
  sent : ℕ → List Frame := fun _ => []

namespace Follower

def setLocal (f : Follower) (r : ℕ) (l : LocalRequest) : Follower :=
  { f with locals := Function.update f.locals r (some l) }

def accept (f : Follower) (r : ℕ) (frame : Frame) : Follower :=
  { f with accepted := Function.update f.accepted r (f.accepted r ++ [frame]) }

/-- `response_task.abort()`: the local request reads no further. -/
def abortLocal (f : Follower) (r : ℕ) : Follower :=
  match f.locals r with
  | some l => f.setLocal r { l with rx := false }
  | none => f

def stop (f : Follower) (exit : LaneExit) : Follower := { f with phase := .stopped exit }

def violation (f : Follower) (message : String) : Follower := f.stop (.violation message)

end Follower

/-- `FORBIDDEN_TUNNEL_TARGET_BODY`. -/
def forbiddenTunnelTargetBody : List UInt8 := "reverse tunnel can only proxy internal storage paths".toUTF8.toList

/-- `send_stream_body_chunks`. -/
def bodyChunkFrames (r : ℕ) (body : List UInt8) : List Frame :=
  (body.toChunks remoteTunnelStreamChunkSize).map (Frame.responseBody r)

/-- `send_stream_error_response`. -/
def errorResponseFrames (r : ℕ) (status : ℕ) (body : List UInt8) : List Frame :=
  { kind := .responseStart, requestId := r, contentLength := some body.length, status := some status } ::
    (bodyChunkFrames r body ++ [.responseEnd r])

section Take

-- `is_allowed_tunnel_target` and `Method::from_bytes`
variable (isAllowedTunnelTarget validMethod : String → Bool)

/-- A request start, at the top of the frame loop. -/
def Follower.takeStart (f : Follower) (frame : Frame) : Follower :=
  match frame.method, frame.pathAndQuery with
  | none, _ => f.stop (.failed "stream request_start missing method")
  | some _, none => f.stop (.failed "stream request_start missing path_and_query")
  | some method, some pathAndQuery =>
    if !isAllowedTunnelTarget pathAndQuery then
      { f.accept frame.requestId frame with
        phase := .draining frame.requestId
        outbox := errorResponseFrames frame.requestId 403 forbiddenTunnelTargetBody }
    else if !validMethod method then f.stop (.failed "invalid reverse tunnel stream request method")
    else
      { (f.accept frame.requestId frame).setLocal frame.requestId {} with phase := .reading frame.requestId }

/-- A frame in the loop over the request body; `none`: the body channel is full. -/
def Follower.takeBody (f : Follower) (r : ℕ) (frame : Frame) : Option Follower :=
  if frame.requestId ≠ r then
    some ((f.abortLocal r).violation "reverse tunnel streaming lane received interleaved request")
  else
    match frame.kind, f.locals r with
    | .requestBody, some l =>
      if l.tx ∧ !l.rx then some ((f.accept r frame).setLocal r { l with tx := false })
      else if l.tx then
        if l.channel.length < reverseTunnelStreamRequestBodyChannelCapacity then
          some ((f.accept r frame).setLocal r { l with channel := l.channel ++ [frame.body] })
        else none
      else some (f.accept r frame)
    | .requestEnd, some l => some { (f.accept r frame).setLocal r { l with tx := false } with phase := .waiting r }
    | .error, some _ => some { (f.accept r frame).abortLocal r with phase := .idle }
    | _, _ => some ((f.abortLocal r).violation "unexpected reverse tunnel streaming request body frame")

/-- A frame while a refused request is drained. -/
def Follower.takeDrained (f : Follower) (r : ℕ) (frame : Frame) : Follower :=
  if frame.requestId ≠ r then
    f.violation "reverse tunnel streaming lane received interleaved request while draining"
  else
    match frame.kind with
    | .requestEnd | .error => { f.accept r frame with phase := .idle }
    | .requestBody => f.accept r frame
    | _ => f.violation "unexpected reverse tunnel streaming frame while draining request"

/-- The follower reads a frame. -/
def Follower.take (f : Follower) (frame : Frame) : Option Follower :=
  match f.phase with
  | .idle =>
    if frame.kind = .requestStart then some (f.takeStart isAllowedTunnelTarget validMethod frame)
    else some (f.violation "reverse tunnel streaming lane expected request_start")
  | .reading r => f.takeBody r frame
  | .waiting r =>
    some ((f.abortLocal r).violation
      "reverse tunnel streaming lane received interleaved request while waiting for local response")
  | .responding _ =>
    some (f.violation "reverse tunnel streaming lane received interleaved request while sending local response")
  | .draining r => some (f.takeDrained r frame)
  | .stopped _ => none

end Take

inductive FollowerAct
  /-- the local response arrives -/
  | localResponse (status : ℕ) (headers : List (String × String)) (contentLength : Option ℕ)
  /-- the local request fails -/
  | localFailure (message : String)
  | localChunk (bytes : List UInt8)
  | localEnd
  /-- the body of the local response is an error -/
  | localError (message : String)
  /-- shutdown, a close frame, or the connection is gone -/
  | leave
  /-- the local request reads a chunk of its body -/
  | readLocal (r : ℕ)
  /-- it finds the end of its body -/
  | endLocal (r : ℕ)
  /-- it is over and drops its body -/
  | dropLocal (r : ℕ)

/-- A step of the follower that takes no frame. The local response is an HTTP response: its status and its headers
are well formed. -/
def Follower.act (validHeader : String × String → Bool) (f : Follower) : FollowerAct → Option Follower
  | .localResponse status headers contentLength =>
    match f.phase, f.outbox with
    | .waiting r, [] =>
      if 100 ≤ status ∧ status < 1000 ∧ headers.all validHeader then
        some { f with
          phase := .responding r
          outbox := [{ kind := .responseStart, requestId := r, headers, contentLength, status := some status }] }
      else none
    | _, _ => none
  | .localFailure message =>
    match f.phase, f.outbox with
    | .waiting r, [] =>
      some { f with
        phase := .idle
        outbox := [.ofError r s!"execute reverse tunnel streaming local request: {message}"] }
    | _, _ => none
  | .localChunk bytes =>
    match f.phase, f.outbox with
    | .responding r, [] => some { f with outbox := bodyChunkFrames r bytes }
    | _, _ => none
  | .localEnd =>
    match f.phase, f.outbox with
    | .responding r, [] => some { f with phase := .idle, outbox := [.responseEnd r] }
    | _, _ => none
  | .localError message =>
    match f.phase, f.outbox with
    | .responding _, [] =>
      some (f.stop (.failed s!"read reverse tunnel streaming local response body: {message}"))
    | _, _ => none
  | .leave =>
    match f.phase with
    | .reading r => some ((f.abortLocal r).stop .closed)
    | .stopped _ => none
    | _ => some (f.stop .closed)
  | .readLocal r =>
    match f.locals r with
    | some { channel := chunk :: rest, tx, rx := true, seen, ended } =>
      some (f.setLocal r { channel := rest, tx, rx := true, seen := seen ++ chunk, ended })
    | _ => none
  | .endLocal r =>
    match f.locals r with
    | some { channel := [], tx := false, rx := true, seen, ended := _ } =>
      some (f.setLocal r { channel := [], tx := false, rx := false, seen, ended := true })
    | _ => none
  | .dropLocal r =>
    match f.locals r with
    | some l => some (f.setLocal r { l with rx := false })
    | none => none

/-! ### Both sides -/

/-- `down` is on its way to the follower, `up` to the primary. -/
structure Lane where
  primary : Primary := {}
  follower : Follower := {}
  down : List Frame := []
  up : List Frame := []

inductive LaneAct
  /-- a step of the primary that neither writes to the connection nor reads from it -/
  | primary (a : PrimaryAct)
  /-- the lane loop of the primary writes a frame -/
  | forward
  /-- it reads a frame -/
  | receive
  /-- the follower writes a frame -/
  | flush
  /-- it reads a frame -/
  | take
  | follower (a : FollowerAct)

section Step

variable (validHeader : String × String → Bool) (isAllowedTunnelTarget validMethod : String → Bool)

def PrimaryAct.isInner : PrimaryAct → Bool
  | .forward | .receive _ => false
  | _ => true

def laneStep (s : Lane) : LaneAct → Option Lane
  | .primary a =>
    if a.isInner then (primaryStep validHeader s.primary a).map fun primary => { s with primary } else none
  | .forward =>
    match s.primary.requestQueue with
    | [] => none
    | frame :: _ =>
      (primaryStep validHeader s.primary .forward).map fun primary => { s with primary, down := s.down ++ [frame] }
  | .receive =>
    match s.up with
    | [] => none
    | frame :: up =>
      (primaryStep validHeader s.primary (.receive frame)).map fun primary => { s with primary, up }
  | .flush =>
    match s.follower.outbox with
    | [] => none
    | frame :: outbox =>
      match s.follower.phase with
      | .stopped _ => none
      | _ =>
        some { s with
          follower := { s.follower with
            outbox
            sent := Function.update s.follower.sent frame.requestId (s.follower.sent frame.requestId ++ [frame]) }
          up := s.up ++ [frame] }
  | .take =>
    match s.down, s.follower.outbox with
    | frame :: down, [] =>
      (s.follower.take isAllowedTunnelTarget validMethod frame).map fun follower => { s with follower, down }
    | _, _ => none
  | .follower a => (s.follower.act validHeader a).map fun follower => { s with follower }

def lane : Lts Lane LaneAct := ⟨laneStep validHeader isAllowedTunnelTarget validMethod⟩

end Step

end AsterDrive.Tunnel
