import AsterDrive.Errors
import AsterDrive.Lib.Result
import AsterDrive.Tunnel.Frame
import Mathlib.Algebra.Group.Nat.Defs

/-!
# Tunnel/FrameCodec — the bytes of a frame on a streaming lane

`encode_stream_frame` and `decode_stream_frame` of `tunnel/server/frame.rs`: a version byte, the length of the metadata in
eight bytes, the metadata as JSON, and the body. `serde_json` is a parameter, and `usize` has 64 bits. A slice that leaves
the bytes is `none`, which would be a panic. The codec limits the metadata only: how large a body may be is up to the
WebSocket.
-/

namespace AsterDrive.Tunnel

open List Option

def remoteTunnelStreamMetaLimit : ℕ := 64 * 1024
def remoteTunnelStreamFrameVersion : UInt8 := 1

/-- `RemoteTunnelStreamFrameMeta`. -/
structure FrameMeta where
  kind : FrameKind
  requestId : String
  method : Option String := none
  pathAndQuery : Option String := none
  headers : List (String × String) := []
  contentLength : Option ℕ := none
  status : Option ℕ := none
  message : Option String := none
  deriving DecidableEq

/-- `RemoteTunnelStreamFrame`, with the request id as it is written. -/
structure StreamFrame extends FrameMeta where
  body : List UInt8

/-- `u64::to_be_bytes`. -/
def toBeBytes (n : ℕ) : List UInt8 := (List.range 8).map fun i => UInt8.ofNat (n / 256 ^ (7 - i))

/-- `u64::from_be_bytes`. -/
def fromBeBytes (bytes : List UInt8) : ℕ := bytes.foldl (fun n byte => n * 256 + byte.toNat) 0

/-- `&bytes[first..last]`. -/
def slice (bytes : List UInt8) (first last : ℕ) : Option (List UInt8) :=
  if first ≤ last ∧ last ≤ bytes.length then some ((bytes.drop first).take (last - first)) else none

section

variable (toVec : FrameMeta → Except String (List UInt8)) (fromSlice : List UInt8 → Except String FrameMeta)

def encodeStreamFrame (frame : StreamFrame) : Except AsterError (List UInt8) :=
  match toVec frame.toFrameMeta with
  | .error e => .error (.ofStorage .misconfigured ("encode reverse tunnel streaming frame metadata: " ++ e))
  | .ok metaBytes =>
    if metaBytes.length > remoteTunnelStreamMetaLimit then
      .error (.ofStorage .precondition "reverse tunnel streaming frame metadata is too large")
    else .ok (remoteTunnelStreamFrameVersion :: (toBeBytes metaBytes.length ++ (metaBytes ++ frame.body)))

/-- `decode_stream_frame` once the length of the metadata is read. -/
def decodeMeta (bytes : List UInt8) (metaLen : ℕ) : Option (Except AsterError StreamFrame) :=
  if metaLen > remoteTunnelStreamMetaLimit then
    some (.error (.validationError { message := "reverse tunnel streaming frame metadata is too large" }))
  else if ¬ 9 + metaLen < 2 ^ 64 then
    some (.error (.ofStorage .precondition "reverse tunnel streaming frame metadata length overflow"))
  else if bytes.length < 9 + metaLen then
    some (.error (.validationError { message := "reverse tunnel streaming frame metadata is truncated" }))
  else (slice bytes 9 (9 + metaLen)).bind fun metaBytes =>
    match fromSlice metaBytes with
    | .error e =>
      some (.error (.validationError { message := "decode reverse tunnel streaming frame metadata: " ++ e }))
    | .ok header => (slice bytes (9 + metaLen) bytes.length).map fun body => .ok { header with body }

def decodeStreamFrame (bytes : List UInt8) : Option (Except AsterError StreamFrame) :=
  if bytes.length < 9 then
    some (.error (.validationError { message := "reverse tunnel streaming frame is too short" }))
  else bytes[0]?.bind fun version =>
    if version ≠ remoteTunnelStreamFrameVersion then
      some (.error (.validationError
        { message := "unsupported reverse tunnel streaming frame version " ++ toString version.toNat }))
    else (slice bytes 1 9).bind fun metaLenBytes => decodeMeta fromSlice bytes (fromBeBytes metaLenBytes)

end

section

variable {toVec : FrameMeta → Except String (List UInt8)} {fromSlice : List UInt8 → Except String FrameMeta}
variable {bytes encoded metaLenBytes metaBytes body : List UInt8} {header : FrameMeta} {frame : StreamFrame} {n first last : ℕ}

theorem length_toBeBytes : (toBeBytes n).length = 8 := by simp [toBeBytes]

theorem fromBeBytes_toBeBytes (h : n < 2 ^ 64) : fromBeBytes (toBeBytes n) = n := by
  simp [toBeBytes, fromBeBytes, range_succ]
  omega

theorem slice_of_le (hfirst : first ≤ last) (hlast : last ≤ bytes.length) :
    slice bytes first last = some ((bytes.drop first).take (last - first)) := if_pos ⟨hfirst, hlast⟩

/-- The bytes of a frame. -/
def framed (metaLenBytes metaBytes body : List UInt8) : List UInt8 :=
  remoteTunnelStreamFrameVersion :: (metaLenBytes ++ (metaBytes ++ body))

theorem decode_start {tail : List UInt8} (hlength : metaLenBytes.length = 8) :
    decodeStreamFrame fromSlice (remoteTunnelStreamFrameVersion :: (metaLenBytes ++ tail)) =
      decodeMeta fromSlice (remoteTunnelStreamFrameVersion :: (metaLenBytes ++ tail)) (fromBeBytes metaLenBytes) := by
  have hcut : slice (remoteTunnelStreamFrameVersion :: (metaLenBytes ++ tail)) 1 9 = some metaLenBytes := by
    rw [slice_of_le (by omega) (by simp [hlength])]
    simp [← hlength]
  rw [decodeStreamFrame, if_neg (by simp [hlength]), getElem?_cons_zero, bind_some, if_neg (not_not.mpr rfl), hcut,
    bind_some]

theorem decode_framed (hlength : metaLenBytes.length = 8) (hmeta : fromBeBytes metaLenBytes = metaBytes.length)
    (hlimit : metaBytes.length ≤ remoteTunnelStreamMetaLimit) :
    decodeStreamFrame fromSlice (framed metaLenBytes metaBytes body) =
      match fromSlice metaBytes with
      | .error e =>
        some (.error (.validationError { message := "decode reverse tunnel streaming frame metadata: " ++ e }))
      | .ok header => some (.ok { header with body }) := by
  have htotal : (framed metaLenBytes metaBytes body).length = 9 + metaBytes.length + body.length := by
    simp only [framed, length_cons, length_append, hlength]
    omega
  have hcut : slice (framed metaLenBytes metaBytes body) 9 (9 + metaBytes.length) = some metaBytes := by
    rw [slice_of_le (by omega) (by omega)]
    simp [framed, ← hlength]
  have hcutBody : slice (framed metaLenBytes metaBytes body) (9 + metaBytes.length)
      (framed metaLenBytes metaBytes body).length = some body := by
    rw [slice_of_le (by omega) (Nat.le_refl _), htotal, Nat.add_sub_cancel_left]
    simp [framed, ← hlength, Nat.add_comm, ← drop_drop]
  have hfits : ¬ metaBytes.length > remoteTunnelStreamMetaLimit := by omega
  unfold remoteTunnelStreamMetaLimit at hlimit
  rw [show decodeStreamFrame fromSlice (framed metaLenBytes metaBytes body) = _ from decode_start hlength]
  show decodeMeta fromSlice (framed metaLenBytes metaBytes body) _ = _
  rw [hmeta, decodeMeta, if_neg hfits, if_neg (by omega), if_neg (by omega), hcut, bind_some]
  cases fromSlice metaBytes with
  | error e => rfl
  | ok header =>
    dsimp only
    rw [hcutBody, map_some]

theorem decode_cases : (∃ e, decodeStreamFrame fromSlice bytes = some (.error e)) ∨
    ∃ frame metaLenBytes metaBytes, decodeStreamFrame fromSlice bytes = some (.ok frame) ∧
      bytes = framed metaLenBytes metaBytes frame.body ∧ metaLenBytes.length = 8 ∧
      fromBeBytes metaLenBytes = metaBytes.length ∧ metaBytes.length ≤ remoteTunnelStreamMetaLimit ∧
      fromSlice metaBytes = .ok frame.toFrameMeta := by
  by_cases hshort : bytes.length < 9
  · exact .inl ⟨_, if_pos hshort⟩
  obtain ⟨version, rest, rfl⟩ := exists_cons_of_length_pos (show 0 < bytes.length by omega)
  by_cases hversion : version = remoteTunnelStreamFrameVersion
  swap
  · exact .inl ⟨_, by rw [decodeStreamFrame, if_neg hshort, getElem?_cons_zero, bind_some, if_pos hversion]⟩
  subst hversion
  rw [length_cons] at hshort
  obtain ⟨metaLenBytes, tail, rfl, hlength⟩ : ∃ metaLenBytes tail, rest = metaLenBytes ++ tail ∧ metaLenBytes.length = 8 :=
    ⟨rest.take 8, rest.drop 8, (take_append_drop 8 rest).symm, length_take_of_le (by omega)⟩
  by_cases hlarge : fromBeBytes metaLenBytes > remoteTunnelStreamMetaLimit
  · exact .inl ⟨_, (decode_start hlength).trans (if_pos hlarge)⟩
  have hlimit : fromBeBytes metaLenBytes ≤ 64 * 1024 := Nat.le_of_not_gt hlarge
  by_cases htail : tail.length < fromBeBytes metaLenBytes
  · refine .inl ⟨_, (decode_start hlength).trans ((if_neg hlarge).trans ((if_neg (by omega)).trans (if_pos ?_)))⟩
    rw [length_cons, length_append, hlength]
    omega
  obtain ⟨metaBytes, body, rfl, hmeta⟩ : ∃ metaBytes body, tail = metaBytes ++ body ∧
      metaBytes.length = fromBeBytes metaLenBytes :=
    ⟨tail.take _, tail.drop _, (take_append_drop _ tail).symm, length_take_of_le (by omega)⟩
  have hdecode := @decode_framed fromSlice metaLenBytes metaBytes body hlength hmeta.symm (hmeta ▸ hlimit)
  cases h : fromSlice metaBytes with
  | error e => exact .inl ⟨_, by rw [h] at hdecode; exact hdecode⟩
  | ok header =>
    rw [h] at hdecode
    exact .inr ⟨_, metaLenBytes, metaBytes, hdecode, rfl, hlength, hmeta.symm, hmeta ▸ hlimit, h⟩

theorem encode_ok_iff : encodeStreamFrame toVec frame = .ok encoded ↔ ∃ metaBytes, toVec frame.toFrameMeta = .ok metaBytes ∧
    metaBytes.length ≤ remoteTunnelStreamMetaLimit ∧ framed (toBeBytes metaBytes.length) metaBytes frame.body = encoded := by
  unfold encodeStreamFrame
  cases toVec frame.toFrameMeta with
  | error e => simp
  | ok metaBytes =>
    by_cases hlarge : metaBytes.length > remoteTunnelStreamMetaLimit
    · have hnot : ¬ metaBytes.length ≤ remoteTunnelStreamMetaLimit := by omega
      simp [if_pos hlarge, hnot]
    · have hfits : metaBytes.length ≤ remoteTunnelStreamMetaLimit := by omega
      simp [if_neg hlarge, hfits, framed]

end

/-- **The codec of the lane.** What fits is encoded and decoded to the same frame, the decoder takes every frame that the
encoder gives, and whatever bytes it gets it stays within them: it fails, or the frame is what they are made of. -/
theorem stream_frame_codec (toVec : FrameMeta → Except String (List UInt8)) (fromSlice : List UInt8 → Except String FrameMeta)
    (hjson : ∀ header metaBytes, toVec header = .ok metaBytes → fromSlice metaBytes = .ok header) :
    (∀ frame metaBytes, toVec frame.toFrameMeta = .ok metaBytes → metaBytes.length ≤ remoteTunnelStreamMetaLimit →
      ∃ encoded, encodeStreamFrame toVec frame = .ok encoded ∧ decodeStreamFrame fromSlice encoded = some (.ok frame)) ∧
    (∀ frame encoded, encodeStreamFrame toVec frame = .ok encoded → decodeStreamFrame fromSlice encoded = some (.ok frame)) ∧
    ∀ bytes, (∃ e, decodeStreamFrame fromSlice bytes = some (.error e)) ∨
      ∃ frame metaLenBytes metaBytes, decodeStreamFrame fromSlice bytes = some (.ok frame) ∧
        bytes = framed metaLenBytes metaBytes frame.body ∧ metaLenBytes.length = 8 ∧
        fromBeBytes metaLenBytes = metaBytes.length ∧ metaBytes.length ≤ remoteTunnelStreamMetaLimit ∧
        fromSlice metaBytes = .ok frame.toFrameMeta := by
  have hdecode : ∀ frame encoded, encodeStreamFrame toVec frame = .ok encoded →
      decodeStreamFrame fromSlice encoded = some (.ok frame) := by
    intro frame encoded h
    obtain ⟨metaBytes, hmeta, hlimit, rfl⟩ := (encode_ok_iff).mp h
    have hsmall : metaBytes.length < 2 ^ 64 := by
      unfold remoteTunnelStreamMetaLimit at hlimit
      omega
    rw [decode_framed length_toBeBytes (fromBeBytes_toBeBytes hsmall) hlimit, hjson _ _ hmeta]
  refine ⟨fun frame metaBytes hmeta hlimit => ?_, hdecode, fun bytes => decode_cases⟩
  have hencode := (encode_ok_iff).mpr ⟨metaBytes, hmeta, hlimit, rfl⟩
  exact ⟨_, hencode, hdecode frame _ hencode⟩

/-- The end of a request, and its metadata. -/
def endMeta : FrameMeta where
  kind := .requestEnd
  requestId := "r-1"

def endJson : List UInt8 := "\x7b\"kind\":\"request_end\",\"request_id\":\"r-1\"\x7d".toUTF8.toList

def endToVec (header : FrameMeta) : Except String (List UInt8) := if header = endMeta then .ok endJson else .error "other"

def endFromSlice (bytes : List UInt8) : Except String FrameMeta := if bytes = endJson then .ok endMeta else .error "other"

theorem end_frame_codec : ∃ encoded, encodeStreamFrame endToVec ⟨endMeta, []⟩ = .ok encoded ∧
    decodeStreamFrame endFromSlice encoded = some (.ok ⟨endMeta, []⟩) := by
  have hjson : ∀ header metaBytes, endToVec header = .ok metaBytes → endFromSlice metaBytes = .ok header := by
    intro header metaBytes h
    unfold endToVec at h
    split_ifs at h with hmeta
    cases h
    rw [hmeta, endFromSlice, if_pos rfl]
  exact (stream_frame_codec endToVec endFromSlice hjson).1 ⟨endMeta, []⟩ endJson (if_pos rfl) (by decide +kernel)

end AsterDrive.Tunnel
