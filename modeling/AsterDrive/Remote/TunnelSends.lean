import AsterDrive.Remote.RequestAuth

/-!
# Remote/TunnelSends — one request, sent through the tunnel once or twice

`ReverseTunnelTransport::send` (`remote_protocol/transport.rs`) makes one nonce for the request and gives it to the
broker, first for a stream lane; if that fails because the transport timed out or went away, once more for the poll
queue. The broker hands the request to its own registry, or to the primary that owns the tunnel
(`tunnel/server/proxy.rs`). Each registry signs what it is given, with the nonce it finds and its own clock
(`registry/headers.rs`, `streaming.rs`, `polling.rs`), and the request is under way until the follower's handler
checks it, or it is lost.

The nonce stays taken for ten minutes from the first acceptance, and a request may be under way for an hour. The
second signature is as good as the first, so a late second request runs again (`late_fallback_runs_twice`).
-/

namespace AsterDrive.Remote

open List Option Function

structure RemoteNode where
  accessKey : String
  secretKey : String

inductive RemoteRequestBody
  | empty
  | bytes (body : List UInt8)
  | reader (size : ℕ) (bodySha256 : Option String)

structure RemoteTransportRequest where
  method : String
  pathAndQuery : String
  contentType : Option String := none
  body : RemoteRequestBody := .empty

def RemoteRequestBody.contentLength : RemoteRequestBody → Option ℕ
  | empty => none
  | bytes body => some body.length
  | reader size _ => some size

/-- What is sent can be sent again. -/
def RemoteRequestBody.hasFallback : RemoteRequestBody → Bool
  | reader _ _ => false
  | _ => true

/-- The context of a storage error. `other`: none, or one that is not about the transport. -/
inductive StorageErrorContext
  | transportTimeout | transportDisconnected | other
  deriving DecidableEq

def shouldFallbackStreamErrorToPoll (context : StorageErrorContext) : Bool :=
  context = .transportTimeout || context = .transportDisconnected

def internalExpectedResponseNonceHeader : String := "x-aster-expected-response-nonce"
def internalContentSha256Header : String := "x-aster-content-sha256"

def takeExpectedResponseNonce (newUuid : String) (extraHeaders : List (String × String)) :
    Except String (String × List (String × String)) :=
  match extraHeaders.filter fun header => header.1 = internalExpectedResponseNonceHeader with
  | _ :: _ :: _ => .error "duplicate expected response nonce metadata"
  | [header] =>
    if header.2 = "" then .error "expected response nonce metadata cannot be empty"
    else .ok (header.2, extraHeaders.filter fun header => header.1 ≠ internalExpectedResponseNonceHeader)
  | [] => .ok (newUuid, extraHeaders)

def hexChar (n : ℕ) : Char := if n < 10 then Char.ofNat ('0'.toNat + n) else Char.ofNat ('a'.toNat + n - 10)

/-- `hex::encode` -/
def encodeHex (bytes : List UInt8) : String :=
  String.ofList (bytes.flatMap fun byte => [hexChar (byte.toNat / 16), hexChar (byte.toNat % 16)])

section Requests

-- HMAC-SHA256 of a text under a key, and SHA-256 in hexadecimal
variable (mac : String → String → List UInt8) (bodySha256Hex : List UInt8 → String)

def RemoteRequestBody.bodySha256 : RemoteRequestBody → String
  | empty => emptyBodySha256
  | bytes body => bodySha256Hex body
  | reader _ bodySha256 => bodySha256.getD ""

def requestHeaders (node : RemoteNode) (method pathAndQuery : String) (contentLength : Option ℕ) (bodySha256 nonce : String)
    (timestamp : ℤ) : List (String × String) :=
  [(accessKeyHeader, node.accessKey), ("x-aster-timestamp", toString timestamp), ("x-aster-nonce", nonce),
    ("x-aster-signature",
      encodeHex (mac node.secretKey (canonical method pathAndQuery timestamp nonce contentLength bodySha256))),
    (internalContentSha256Header, bodySha256)] ++
    (contentLength.map fun contentLength => ("content-length", toString contentLength)).toList

/-- The headers that `send` gives to the broker. -/
def extraHeaders (request : RemoteTransportRequest) (requestNonce : String) : List (String × String) :=
  (request.contentType.map fun value => ("content-type", value)).toList ++
    [(internalExpectedResponseNonceHeader, requestNonce),
      (internalContentSha256Header, request.body.bodySha256 bodySha256Hex)]

/-- The request as a registry sends it. -/
def tunnelRequest (node : RemoteNode) (request : RemoteTransportRequest) (requestNonce newUuid : String) (timestamp : ℤ) :
    Except String InternalRequest := do
  let (nonce, extra) ← takeExpectedResponseNonce newUuid (extraHeaders bodySha256Hex request requestNonce)
  let declared := (extra.lookup internalContentSha256Header).getD ""
  let headers :=
    requestHeaders mac node request.method request.pathAndQuery request.body.contentLength declared nonce timestamp ++ extra
  return { method := request.method, pathAndQuery := request.pathAndQuery, header := fun name => headers.lookup name }

/-! ### Sends -/

def remoteTunnelRequestTimeout : ℤ := 60 * 60 * 1000000000

/-- Where a send is. `proxied`: the broker has given the request to another primary. -/
inductive Stage
  | streaming (proxied : Bool) | polling (proxied : Bool) | done

structure Send where
  request : RemoteTransportRequest
  requestNonce : String
  stage : Stage
  /-- When the wait for the follower's answer ends. -/
  deadline : Option ℤ := none

/-- A request that the broker was given and no registry has sent yet. -/
structure Attempt where
  send : ℕ
  proxied : Bool

/-- A request under way to the handler of the follower, or there. -/
structure Sent where
  send : ℕ
  request : InternalRequest

structure Sends where
  now : Instant
  sends : ℕ → Option Send := fun _ => none
  waiting : List Attempt := []
  underWay : List Sent := []
  /-- The nonces that the follower keeps. -/
  cache : NonceCache := .empty
  /-- What has come to the follower, and when. -/
  arrived : List (Instant × Sent) := []
  /-- The sends whose request the handler has run, one entry for each time. -/
  handled : List ℕ := []

inductive SendsAct
  | tick (now : Instant)
  | send (i : ℕ) (request : RemoteTransportRequest) (requestNonce : String) (streamLane proxied : Bool)
  | submit (k : ℕ) (newUuid : String) (timestamp : ℤ)
  /-- The broker returns an error; `proxied` is for the second attempt. -/
  | fail (i : ℕ) (context : StorageErrorContext) (proxied : Bool)
  | succeed (i : ℕ)
  /-- The other primary gives up before it has sent the request. -/
  | withdraw (k : ℕ)
  | lose (k : ℕ)
  | arrive (k : ℕ) (bindings : String → Option MasterBinding)
  /-- Any other request comes to the follower. -/
  | foreign (request : InternalRequest) (bindings : String → Option MasterBinding) (allowDisabled : Bool)

namespace Sends

def setSend (s : Sends) (i : ℕ) (send : Send) : Sends := { s with sends := Function.update s.sends i (some send) }

/-- The attempts that are left when a call of the broker ends: those that another primary has. -/
def left (s : Sends) (i : ℕ) : List Attempt := s.waiting.filter fun attempt => attempt.send ≠ i || attempt.proxied

def step (node : RemoteNode) (s : Sends) : SendsAct → Option Sends
  | .tick now => if s.now.nanos ≤ now.nanos then some { s with now } else none
  | .send i request requestNonce streamLane proxied =>
    if (s.sends i).isNone then
      some
        { s.setSend i ⟨request, requestNonce, if streamLane then .streaming proxied else .polling proxied, none⟩ with
          waiting := s.waiting ++ [⟨i, proxied⟩] }
    else none
  | .submit k newUuid timestamp => do
    let attempt ← s.waiting[k]?
    let send ← s.sends attempt.send
    let request ← (tunnelRequest mac bodySha256Hex node send.request send.requestNonce newUuid timestamp).toOption
    return { s.setSend attempt.send { send with deadline := some (s.now.nanos + remoteTunnelRequestTimeout) } with
      waiting := s.waiting.eraseIdx k
      underWay := s.underWay ++ [⟨attempt.send, request⟩] }
  | .fail i context proxied => do
    let send ← s.sends i
    match send.stage with
    | .streaming false =>
      if context = .transportTimeout ∧ ¬ send.deadline.any (fun deadline => deadline ≤ s.now.nanos) then none
      else if shouldFallbackStreamErrorToPoll context && send.request.body.hasFallback then
        return { s.setSend i { send with stage := .polling proxied, deadline := none } with
          waiting := s.left i ++ [⟨i, proxied⟩] }
      else return { s.setSend i { send with stage := .done } with waiting := s.left i }
    -- no error of the proxy has a context
    | .streaming true => return s.setSend i { send with stage := .done }
    | .polling _ => return { s.setSend i { send with stage := .done } with waiting := s.left i }
    | .done => none
  | .succeed i => do
    let send ← s.sends i
    return s.setSend i { send with stage := .done }
  | .withdraw k => some { s with waiting := s.waiting.eraseIdx k }
  | .lose k => some { s with underWay := s.underWay.eraseIdx k }
  | .arrive k bindings => do
    let sent ← s.underWay[k]?
    let s := { s with underWay := s.underWay.eraseIdx k, arrived := s.arrived ++ [(s.now, sent)] }
    match authorizeBindingRequest mac bindings false s.cache s.now sent.request with
    | .ok cache => return { s with cache, handled := s.handled ++ [sent.send] }
    | .error _ => return s
  | .foreign request bindings allowDisabled =>
    match authorizeBindingRequest mac bindings allowDisabled s.cache s.now request with
    | .ok cache => some { s with cache }
    | .error _ => some s

end Sends

def sends (node : RemoteNode) : Lts Sends SendsAct := ⟨Sends.step mac bodySha256Hex node⟩

namespace Sends

/-- The handler ran the request of no send twice. -/
def AtMostOnce (s : Sends) : Prop := s.handled.Nodup

end Sends

/-- The request comes at a time at which its timestamp is accepted. -/
def inWindow (now : Instant) (request : InternalRequest) : Bool :=
  ((Check.binding (fun _ => none) false).identity request).any fun id => !outsideSkew now.timestamp id.timestamp

/-- The nonce that the first request has taken is not gone when the second one comes. -/
def Sends.InTime (s : Sends) : SendsAct → Prop
  | .arrive k _ => ∀ sent ∈ s.underWay[k]?, inWindow s.now sent.request → ∀ earlier ∈ s.arrived,
      earlier.2.send = sent.send → inWindow earlier.1 earlier.2.request →
        s.now.nanos < earlier.1.nanos + internalAuthNonceTtl
  | _ => True

instance (s : Sends) (a : SendsAct) : Decidable (s.InTime a) := by
  cases a <;> unfold Sends.InTime <;> infer_instance

end Requests

/-! ### The nonce of a send -/

section Nonce

variable {mac : String → String → List UInt8} {bodySha256Hex : List UInt8 → String} {node : RemoteNode}
  {request : RemoteTransportRequest} {requestNonce newUuid nonce : String} {timestamp : ℤ} {sent : InternalRequest}
  {extra : List (String × String)} {id : Identity}

theorem takeExpectedResponseNonce_extraHeaders
    (h : takeExpectedResponseNonce newUuid (extraHeaders bodySha256Hex request requestNonce) = .ok (nonce, extra)) :
    nonce = requestNonce := by
  have hone : (extraHeaders bodySha256Hex request requestNonce).filter (fun header =>
      header.1 = internalExpectedResponseNonceHeader) = [(internalExpectedResponseNonceHeader, requestNonce)] := by
    cases hctype : request.contentType with
    | none | some value =>
      simp [extraHeaders, hctype, internalExpectedResponseNonceHeader, internalContentSha256Header]
  rw [takeExpectedResponseNonce, hone] at h
  dsimp only at h
  split_ifs at h
  exact (ok_pair_inj h).1.symm

theorem tunnelRequest_identity (h : tunnelRequest mac bodySha256Hex node request requestNonce newUuid timestamp = .ok sent)
    {bindings : String → Option MasterBinding} {allowDisabled : Bool}
    (hid : (Check.binding bindings allowDisabled).identity sent = some id) :
    id.key = (Identity.mk .binding node.accessKey requestNonce 0).key := by
  obtain ⟨⟨nonce, extra⟩, htake, hsent⟩ := bind_ok h
  have hnonce : nonce = requestNonce := takeExpectedResponseNonce_extraHeaders htake
  cases hsent
  obtain ⟨hverifier, hkey, hheader, -⟩ := Check.identity_some hid
  have hkey' : id.accessKey = node.accessKey := by
    have := (filter_eq_some_iff.mp (okOr_ok_iff.mp hkey)).1
    simpa [requestHeaders, accessKeyHeader] using this.symm
  have hheader' : id.nonce = requestNonce := by
    have := (filter_eq_some_iff.mp (okOr_ok_iff.mp hheader)).1
    rw [← hnonce]
    simpa [requestHeaders, accessKeyHeader, lookup_cons] using this.symm
  rw [Identity.key, hverifier, hkey', hheader']
  rfl

end Nonce

/-! ### The invariant -/

namespace Sends

/-- The entry of a send in the cache of the follower. -/
def nonceKey (node : RemoteNode) (send : Send) : String := (Identity.mk .binding node.accessKey send.requestNonce 0).key

/-- Each request under way has the nonce of its send, and the nonce of a send that was handled is taken. -/
structure Kept (node : RemoteNode) (s : Sends) : Prop where
  once : s.AtMostOnce
  signed : ∀ sent ∈ s.underWay, ∃ send, s.sends sent.send = some send ∧
    ∀ bindings allowDisabled id, (Check.binding bindings allowDisabled).identity sent.request = some id →
      id.key = nonceKey node send
  taken : ∀ i ∈ s.handled, ∃ send, s.sends i = some send ∧ ∃ earlier ∈ s.arrived, earlier.2.send = i ∧
    inWindow earlier.1 earlier.2.request ∧ s.cache.Lasts (nonceKey node send) (earlier.1.nanos + internalAuthNonceTtl)

variable {mac : String → String → List UInt8} {bodySha256Hex : List UInt8 → String} {node : RemoteNode} {s s' : Sends}
  {a : SendsAct} {send : Send} {i k : ℕ}

@[simp] theorem sends_setSend {j : ℕ} : (s.setSend i send).sends j = if j = i then some send else s.sends j :=
  update_apply ..

theorem Kept.setSend (hs : s.Kept node) (hsame : ∀ old, s.sends i = some old → send.requestNonce = old.requestNonce) :
    (s.setSend i send).Kept node := by
  have hkept : ∀ {j old}, s.sends j = some old →
      ∃ new, (s.setSend i send).sends j = some new ∧ nonceKey node old = nonceKey node new := by
    intro j old hold
    rw [sends_setSend]
    split_ifs with hij
    · subst hij
      exact ⟨send, rfl, by rw [nonceKey, nonceKey, hsame old hold]⟩
    · exact ⟨old, hold, rfl⟩
  refine ⟨hs.once, fun sent hsent => ?_, fun j hj => ?_⟩
  · obtain ⟨old, hold, hkey⟩ := hs.signed sent hsent
    obtain ⟨new, hnew, heq⟩ := hkept hold
    exact ⟨new, hnew, fun bindings allowDisabled id hid => (hkey bindings allowDisabled id hid).trans heq⟩
  · obtain ⟨old, hold, earlier, hmem, hsend, hwindow, hlasts⟩ := hs.taken j hj
    obtain ⟨new, hnew, heq⟩ := hkept hold
    exact ⟨new, hnew, earlier, hmem, hsend, hwindow, heq ▸ hlasts⟩

theorem Kept.submit (hs : s.Kept node) (hsend : s.sends i = some send) {request : InternalRequest} {newUuid : String}
    {timestamp : ℤ} (h : tunnelRequest mac bodySha256Hex node send.request send.requestNonce newUuid timestamp = .ok request) :
    Kept node { s with underWay := s.underWay ++ [⟨i, request⟩] } := by
  refine ⟨hs.once, fun sent hsent => ?_, hs.taken⟩
  rcases mem_append.mp hsent with hsent | hsent
  · exact hs.signed sent hsent
  · obtain rfl := mem_singleton.mp hsent
    exact ⟨send, hsend, fun _ _ _ hid => tunnelRequest_identity h hid⟩

theorem Kept.erase (hs : s.Kept node) : Kept node { s with underWay := s.underWay.eraseIdx k } :=
  ⟨hs.once, fun sent hsent => hs.signed sent (mem_of_mem_eraseIdx hsent), hs.taken⟩

theorem Kept.arrive (hs : s.Kept node) {arrival : Instant × Sent} :
    Kept node { s with arrived := s.arrived ++ [arrival] } := by
  refine ⟨hs.once, hs.signed, fun i hi => ?_⟩
  obtain ⟨send, hsend, earlier, hmem, hrest⟩ := hs.taken i hi
  exact ⟨send, hsend, earlier, mem_append_left _ hmem, hrest⟩

theorem Kept.authorize (hs : s.Kept node) {now : Instant} {check : Check} {request : InternalRequest} {cache : NonceCache}
    (h : check.authorize mac s.cache now request = .ok cache) : Kept node { s with cache } := by
  obtain ⟨id, -, -, hcache⟩ := Check.authorize_ok h
  refine ⟨hs.once, hs.signed, fun i hi => ?_⟩
  obtain ⟨send, hsend, earlier, hmem, hearlier, hwindow, hlasts⟩ := hs.taken i hi
  have hnext : (s.cache.setIfAbsent id.key now.nanos internalAuthNonceTtl).1.Lasts (nonceKey node send)
      (earlier.1.nanos + internalAuthNonceTtl) := hlasts.setIfAbsent (by decide)
  rw [hcache] at hnext
  exact ⟨send, hsend, earlier, hmem, hearlier, hwindow, hnext⟩

theorem Kept.handle (hs : s.Kept node) {sent : Sent} {bindings : String → Option MasterBinding} {cache : NonceCache}
    (hsent : sent ∈ s.underWay)
    (htime : inWindow s.now sent.request → ∀ earlier ∈ s.arrived, earlier.2.send = sent.send →
      inWindow earlier.1 earlier.2.request → s.now.nanos < earlier.1.nanos + internalAuthNonceTtl)
    (h : authorizeBindingRequest mac bindings false s.cache s.now sent.request = .ok cache) :
    Kept node { s with cache, arrived := s.arrived ++ [(s.now, sent)], handled := s.handled ++ [sent.send] } := by
  have hcheck : (Check.binding bindings false).authorize mac s.cache s.now sent.request = .ok cache := h
  obtain ⟨id, hid, hskew, hcache⟩ := Check.authorize_ok hcheck
  obtain ⟨send, hsend, hkey⟩ := hs.signed sent hsent
  have hnow : inWindow s.now sent.request := by
    have hid' : (Check.binding (fun _ => none) false).identity sent.request = some id := hid
    rw [inWindow, hid', any_some, hskew]
    rfl
  rw [hkey _ _ id hid] at hcache
  have hinserted : (s.cache.setIfAbsent (nonceKey node send) s.now.nanos internalAuthNonceTtl).2 = true := by rw [hcache]
  have hfirst : sent.send ∉ s.handled := by
    intro hin
    obtain ⟨send', hsend', earlier, hmem, hearlier, hwindow, hlasts⟩ := hs.taken _ hin
    obtain rfl : send = send' := some.inj (hsend.symm.trans hsend')
    have hgone : earlier.1.nanos + internalAuthNonceTtl ≤ s.now.nanos := hlasts.le_of_inserted hinserted
    have hearly := htime hnow earlier hmem hearlier hwindow
    omega
  have hothers : Kept node { s with cache, arrived := s.arrived ++ [(s.now, sent)] } := (hs.authorize hcheck).arrive
  refine ⟨?_, hothers.signed, fun i hi => ?_⟩
  · show (s.handled ++ [sent.send]).Nodup
    rw [nodup_append]
    exact ⟨hs.once, nodup_singleton _, fun i hi j hj => by
      obtain rfl := mem_singleton.mp hj
      rintro rfl
      exact hfirst hi⟩
  · rcases mem_append.mp hi with hi | hi
    · exact hothers.taken i hi
    · obtain rfl := mem_singleton.mp hi
      have hlasts : cache.Lasts (nonceKey node send) (s.now.nanos + internalAuthNonceTtl) := by
        have := ExpiringSet.lasts_of_inserted hinserted
        rwa [hcache] at this
      exact ⟨send, hsend, (s.now, sent), mem_append_right _ mem_cons_self, rfl, hnow, hlasts⟩

theorem kept_step (hs : s.Kept node) (hg : s.InTime a) (h : s.step mac bodySha256Hex node a = some s') : s'.Kept node := by
  cases a with
  | tick now =>
    obtain ⟨-, h⟩ := ite_none_right_eq_some.mp h
    cases h
    exact ⟨hs.once, hs.signed, hs.taken⟩
  | send i request requestNonce streamLane proxied =>
    obtain ⟨hnew, h⟩ := ite_none_right_eq_some.mp h
    cases h
    have hset : Kept node (s.setSend i ⟨request, requestNonce, if streamLane then .streaming proxied else .polling proxied, none⟩) :=
      hs.setSend fun old hold => absurd hold (by simp [isNone_iff_eq_none.mp hnew])
    exact ⟨hset.once, hset.signed, hset.taken⟩
  | submit k newUuid timestamp =>
    obtain ⟨attempt, -, h⟩ := bind_eq_some_iff.mp h
    obtain ⟨send, hsend, h⟩ := bind_eq_some_iff.mp h
    obtain ⟨request, hrequest, h⟩ := bind_eq_some_iff.mp h
    cases h
    have hset : Kept node (s.setSend attempt.send { send with deadline := some (s.now.nanos + remoteTunnelRequestTimeout) }) :=
      hs.setSend fun old hold => by rw [some.inj (hsend.symm.trans hold)]
    have hnext : (s.setSend attempt.send { send with deadline := some (s.now.nanos + remoteTunnelRequestTimeout) }).sends
        attempt.send = some { send with deadline := some (s.now.nanos + remoteTunnelRequestTimeout) } :=
      (sends_setSend).trans (if_pos rfl)
    have hsent := hset.submit hnext (toOption_eq_some_iff.mp hrequest)
    exact ⟨hsent.once, hsent.signed, hsent.taken⟩
  | fail i context proxied =>
    obtain ⟨send, hsend, h⟩ := bind_eq_some_iff.mp h
    have hset : ∀ stage deadline, Kept node (s.setSend i { send with stage, deadline }) := fun _ _ =>
      hs.setSend fun old hold => by rw [some.inj (hsend.symm.trans hold)]
    split at h
    · split_ifs at h
      · cases h
        exact ⟨(hset (.polling proxied) none).once, (hset _ none).signed, (hset _ none).taken⟩
      · cases h
        exact ⟨(hset .done send.deadline).once, (hset .done send.deadline).signed, (hset .done send.deadline).taken⟩
    · cases h
      exact hset .done send.deadline
    · cases h
      exact ⟨(hset .done send.deadline).once, (hset .done send.deadline).signed, (hset .done send.deadline).taken⟩
    · cases h
  | succeed i =>
    obtain ⟨send, hsend, h⟩ := bind_eq_some_iff.mp h
    cases h
    exact hs.setSend fun old hold => by rw [some.inj (hsend.symm.trans hold)]
  | withdraw k =>
    cases h
    exact ⟨hs.once, hs.signed, hs.taken⟩
  | lose k =>
    cases h
    exact hs.erase
  | arrive k bindings =>
    obtain ⟨sent, hsent, h⟩ := bind_eq_some_iff.mp h
    dsimp only at h
    split at h
    next cache hcache =>
      cases h
      exact (hs.handle (mem_of_getElem? hsent) (hg sent hsent) hcache).erase
    next =>
      cases h
      exact hs.arrive.erase
  | foreign request bindings allowDisabled =>
    simp only [step] at h
    split at h
    next cache hcache =>
      cases h
      have hcheck : (Check.binding bindings allowDisabled).authorize mac s.cache s.now request = .ok cache := hcache
      exact hs.authorize hcheck
    next =>
      cases h
      exact hs

end Sends

/-- **A send is handled at most once**, as long as no request of it comes ten minutes or more after the one before, each
within the skew of its own timestamp. -/
theorem send_handled_once {mac : String → String → List UInt8} {bodySha256Hex : List UInt8 → String} {node : RemoteNode}
    {now : Instant} {s : Sends} (h : (sends mac bodySha256Hex node).Reach Sends.InTime { now } s) : s.AtMostOnce :=
  have hstart : Sends.Kept node { now } := ⟨nodup_nil, (fun _ hs => nomatch hs), (fun _ hi => nomatch hi)⟩
  (h.induct hstart Sends.kept_step).once

/-! ### A request that is sent twice -/

def edgeNode : RemoteNode := ⟨"ak", "secret"⟩

def edgeBindings (accessKey : String) : Option MasterBinding := if accessKey = "ak" then some ⟨"secret", true⟩ else none

def deleteObject : RemoteTransportRequest where
  method := "DELETE"
  pathAndQuery := "/api/v1/internal/storage/objects/a"

/-- The HMAC of the two requests that the registry signs, four hundred seconds apart. -/
def deleteMac (key text : String) : List UInt8 :=
  let signed (timestamp : ℤ) := canonical "DELETE" "/api/v1/internal/storage/objects/a" timestamp "nonce-1" none emptyBodySha256
  if key = "secret" ∧ text = signed 1700000000 then
    [230, 25, 76, 161, 213, 92, 54, 92, 179, 38, 108, 217, 6, 23, 224, 215, 86, 80, 227, 169, 113, 152, 174, 33, 130, 136,
      78, 74, 117, 40, 78, 106]
  else if key = "secret" ∧ text = signed 1700000400 then
    [253, 46, 80, 250, 202, 209, 249, 144, 214, 27, 246, 150, 83, 160, 9, 219, 18, 178, 189, 30, 115, 33, 225, 2, 120, 217,
      192, 173, 8, 213, 180, 88]
  else []

/-- `seconds` after the request was first sent. -/
def secondsLater (seconds : ℤ) (h : 0 ≤ seconds ∧ seconds ≤ 3600) : Instant where
  nanos := (1700000000 + seconds) * 1000000000
  inRange := by omega

/-- The request runs, the lane is lost after four hundred seconds, and the request goes to the poll queue. -/
def laneLost : List SendsAct :=
  [.send 0 deleteObject "nonce-1" true false, .submit 0 "" 1700000000, .arrive 0 edgeBindings,
    .tick (secondsLater 400 (by decide)), .fail 0 .transportDisconnected false, .submit 0 "" 1700000400]

/-- The follower checks the second request at once. -/
def promptFallback : List SendsAct := laneLost ++ [.arrive 0 edgeBindings]

theorem send_handled_once_prompt_fallback :
    ∃ s, (sends deleteMac (fun _ => "") edgeNode).run Sends.InTime promptFallback { now := secondsLater 0 (by decide) } =
      some s ∧ s.arrived.length = 2 ∧ s.handled = [0] ∧ s.AtMostOnce := by
  have hrun : ((sends deleteMac (fun _ => "") edgeNode).run Sends.InTime promptFallback
      { now := secondsLater 0 (by decide) }).map (fun s => (s.arrived.length, s.handled)) = some (2, [0]) := by
    decide +kernel
  obtain ⟨s, hs, harrived, hhandled⟩ := map_pair_eq_some hrun
  exact ⟨s, hs, harrived, hhandled, send_handled_once (Lts.reach_of_run hs)⟩

/-- The follower checks it two hundred seconds later. -/
def lateFallback : List SendsAct := laneLost ++ [.tick (secondsLater 600 (by decide)), .arrive 0 edgeBindings]

theorem late_fallback_runs_twice :
    ¬ ∀ mac bodySha256Hex node now s, (sends mac bodySha256Hex node).Reach Lts.free { now } s → s.AtMostOnce := by
  intro honce
  have hrun : ((sends deleteMac (fun _ => "") edgeNode).run Lts.free lateFallback
      { now := secondsLater 0 (by decide) }).map Sends.handled = some [0, 0] := by decide +kernel
  obtain ⟨s, hs, hhandled⟩ := map_eq_some_iff.mp hrun
  have hnodup := honce deleteMac (fun _ => "") edgeNode (secondsLater 0 (by decide)) s (Lts.reach_of_run hs)
  rw [Sends.AtMostOnce, hhandled] at hnodup
  simp at hnodup

end AsterDrive.Remote
