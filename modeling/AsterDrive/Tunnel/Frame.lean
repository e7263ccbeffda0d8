import Mathlib.Data.List.Basic
import Mathlib.Data.Nat.Notation
import Mathlib.Tactic.Common

/-!
# Tunnel/Frame — what travels on a streaming lane of the reverse tunnel

`tunnel/server/frame.rs`, and the payload that a run of frames carries. A request id is a fresh
UUID, here a number.
-/

namespace AsterDrive.Tunnel

/-- `REMOTE_TUNNEL_STREAM_CHANNEL_CAPACITY`, for the request channel of a lane and for the body channel
of a response. -/
def remoteTunnelStreamChannelCapacity : ℕ := 16

/-- `REMOTE_TUNNEL_STREAM_CHUNK_SIZE`. -/
def remoteTunnelStreamChunkSize : ℕ := 64 * 1024

/-- `REVERSE_TUNNEL_STREAM_REQUEST_BODY_CHANNEL_CAPACITY`. -/
def reverseTunnelStreamRequestBodyChannelCapacity : ℕ := 16

/-- `REMOTE_TUNNEL_PROXY_BODY_BRIDGE_CAPACITY`. -/
def remoteTunnelProxyBodyBridgeCapacity : ℕ := 128 * 1024

inductive FrameKind
  | requestStart | requestBody | requestEnd | responseStart | responseBody | responseEnd | error
  deriving DecidableEq

/-- `RemoteTunnelStreamFrame`. -/
structure Frame where
  kind : FrameKind
  requestId : ℕ
  method : Option String := none
  pathAndQuery : Option String := none
  headers : List (String × String) := []
  contentLength : Option ℕ := none
  status : Option ℕ := none
  message : Option String := none
  body : List UInt8 := []
  deriving DecidableEq

namespace Frame

/-- `RemoteTunnelStreamFrame::error`. -/
def ofError (requestId : ℕ) (message : String) : Frame where
  kind := .error
  requestId := requestId
  message := some message

def requestBody (requestId : ℕ) (body : List UInt8) : Frame where
  kind := .requestBody
  requestId := requestId
  body := body

def requestEnd (requestId : ℕ) : Frame where
  kind := .requestEnd
  requestId := requestId

def responseBody (requestId : ℕ) (body : List UInt8) : Frame where
  kind := .responseBody
  requestId := requestId
  body := body

def responseEnd (requestId : ℕ) : Frame where
  kind := .responseEnd
  requestId := requestId

end Frame

/-- The payload of the frames of one kind, in order. -/
def payload (kind : FrameKind) (frames : List Frame) : List UInt8 :=
  frames.flatMap fun f => if f.kind = kind then f.body else []

@[simp] theorem payload_nil (kind : FrameKind) : payload kind [] = [] := rfl

@[simp] theorem payload_append (kind : FrameKind) (fs gs : List Frame) :
    payload kind (fs ++ gs) = payload kind fs ++ payload kind gs := by
  simp [payload]

@[simp] theorem payload_cons (kind : FrameKind) (f : Frame) (fs : List Frame) :
    payload kind (f :: fs) = (if f.kind = kind then f.body else []) ++ payload kind fs := by
  simp [payload]

theorem payload_isPrefix {kind : FrameKind} {fs gs : List Frame} (h : fs <+: gs) :
    payload kind fs <+: payload kind gs := by
  obtain ⟨rest, rfl⟩ := h
  rw [payload_append]
  exact List.prefix_append _ _

/-- The frames of one request. -/
def framesOf (requestId : ℕ) (frames : List Frame) : List Frame := frames.filter fun f => f.requestId = requestId

@[simp] theorem framesOf_nil (r : ℕ) : framesOf r [] = [] := rfl

@[simp] theorem framesOf_append (r : ℕ) (fs gs : List Frame) : framesOf r (fs ++ gs) = framesOf r fs ++ framesOf r gs := by
  simp [framesOf]

theorem framesOf_cons (r : ℕ) (f : Frame) (fs : List Frame) :
    framesOf r (f :: fs) = if f.requestId = r then f :: framesOf r fs else framesOf r fs := by
  by_cases h : f.requestId = r <;> simp [framesOf, h]

end AsterDrive.Tunnel
