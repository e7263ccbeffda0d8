import AsterDrive.Lib.ExpiringSet
import AsterDrive.Tunnel.Registry
import Mathlib.Data.List.Nodup
import Mathlib.Logic.Equiv.Basic
import Mathlib.Algebra.Group.Nat.Defs
import Mathlib.Algebra.Group.Int.Defs

/-!
# Remote/RequestAuth — the signed requests between a primary and its followers

The three verifiers of an internal request: `authorize_binding_request` on a follower
(`services/remote/master_binding.rs`), `authorize_remote_node_request` on a primary
(`remote_protocol/primary_auth.rs`), and `authorize_proxy_request` between primaries
(`tunnel/server/proxy.rs`). Each reads the four headers, compares the timestamp with the clock, verifies the
signature, and takes the nonce, which stays taken for twice the allowed skew.

The clock counts seconds and the cache does not. A request that arrives in the first second of its window and is
repeated in the last one finds its nonce gone (`replay_in_last_second`).
-/

namespace AsterDrive.Remote

open List Option

/-! ### Numbers -/

/-- The value of an `i64` computation in release mode. -/
def wrapI64 (x : ℤ) : ℤ := x.bmod (2 ^ 64)

/-- `i64::abs` in release mode. -/
def absI64 (x : ℤ) : ℤ := wrapI64 x.natAbs

def i64Min : ℤ := -2 ^ 63
def i64Max : ℤ := 2 ^ 63 - 1

def parseDigits (cs : List Char) : Option ℕ :=
  if cs ≠ [] ∧ cs.all Char.isDigit then some (cs.foldl (fun n c => 10 * n + (c.toNat - '0'.toNat)) 0) else none

/-- `str::parse::<i64>` -/
def parseI64 (text : String) : Option ℤ :=
  let value : Option ℤ :=
    match text.toList with
    | '-' :: cs => (parseDigits cs).map fun n => -(n : ℤ)
    | '+' :: cs => (parseDigits cs).map Int.ofNat
    | cs => (parseDigits cs).map Int.ofNat
  value.filter fun v => i64Min ≤ v ∧ v ≤ i64Max

/-- `str::parse::<u64>` -/
def parseU64 (text : String) : Option ℕ :=
  let value :=
    match text.toList with
    | '+' :: cs => parseDigits cs
    | cs => parseDigits cs
  value.filter fun v => v < 2 ^ 64

/-- An instant of `chrono::Utc`, in nanoseconds. -/
structure Instant where
  nanos : ℤ
  inRange : -8334601228800 ≤ nanos / 1000000000 ∧ nanos / 1000000000 ≤ 8210266876799

/-- `timestamp()`: whole seconds. -/
def Instant.timestamp (t : Instant) : ℤ := t.nanos / 1000000000

/-! ### The signature -/

def internalAuthSkewSecs : ℤ := 300

/-- `INTERNAL_AUTH_NONCE_TTL_SECS`, in nanoseconds. -/
def internalAuthNonceTtl : ℤ := 2 * internalAuthSkewSecs * 1000000000

def emptyBodySha256 : String := "e3b0c44298fc1c149afbf4c8996fb92427ae41e4649b934ca495991b7852b855"

def hexDigit (c : Char) : Option ℕ :=
  if '0' ≤ c ∧ c ≤ '9' then some (c.toNat - '0'.toNat)
  else if 'a' ≤ c ∧ c ≤ 'f' then some (c.toNat - 'a'.toNat + 10)
  else if 'A' ≤ c ∧ c ≤ 'F' then some (c.toNat - 'A'.toNat + 10)
  else none

def decodeHex : List Char → Option (List UInt8)
  | [] => some []
  | [_] => none
  | high :: low :: rest => do
    let h ← hexDigit high
    let l ← hexDigit low
    let bytes ← decodeHex rest
    some (UInt8.ofNat (16 * h + l) :: bytes)

/-- `hex::decode_to_slice` into 32 bytes. -/
def decodeSignature (text : String) : Option (List UInt8) :=
  (decodeHex text.toList).filter fun bytes => bytes.length = 32

def canonical (method pathAndQuery : String) (timestamp : ℤ) (nonce : String) (contentLength : Option ℕ)
    (bodySha256 : String) : String :=
  String.intercalate "\n"
    [method, pathAndQuery, toString timestamp, nonce, (contentLength.map toString).getD "", bodySha256]

section Verifiers

-- HMAC-SHA256 of a text under a key
variable (mac : String → String → List UInt8)

def verifyInternalRequestSignature (secretKey method pathAndQuery : String) (timestamp : ℤ) (nonce : String)
    (contentLength : Option ℕ) (bodySha256 : Option String) (providedSignature : String) : Bool :=
  match decodeSignature providedSignature with
  | none => false
  | some decoded =>
    let canonicals :=
      match bodySha256 with
      | some digest => [canonical method pathAndQuery timestamp nonce contentLength digest]
      | none => [canonical method pathAndQuery timestamp nonce contentLength "",
          canonical method pathAndQuery timestamp nonce contentLength emptyBodySha256]
    canonicals.any fun text => mac secretKey text = decoded

/-! ### The request -/

inductive AuthError
  | tokenInvalid (message : String)
  | credentialsInvalid (message : String)
  /-- `MasterBindingDisabled` -/
  | bindingDisabled

/-- `header`: the values that `to_str` accepts. -/
structure InternalRequest where
  method : String
  pathAndQuery : String
  header : String → Option String

def ensure (condition : Bool) (error : AuthError) : Except AuthError Unit :=
  if condition then .ok () else .error error

theorem ensure_ok_iff {condition : Bool} {error : AuthError} : ensure condition error = .ok () ↔ condition = true := by
  cases condition <;> simp [ensure]

def okOr {α : Type} (value : Option α) (error : AuthError) : Except AuthError α :=
  match value with
  | some a => .ok a
  | none => .error error

theorem okOr_ok_iff {α : Type} {value : Option α} {error : AuthError} {a : α} :
    okOr value error = .ok a ↔ value = some a := by
  cases value <;> simp [okOr]

def headerValue (req : InternalRequest) (name : String) : Except AuthError String :=
  okOr ((req.header name).filter fun value => value ≠ "") (.tokenInvalid ("missing header " ++ name))

/-- What a verifier reads from the headers. -/
structure SignedHeaders where
  accessKey : String
  timestamp : ℤ
  nonce : String
  signature : String

/-- The texts of the errors that the verifiers have in common. -/
structure AuthTexts where
  timestamp : String
  skew : String
  signature : String
  nonce : String

def accessKeyHeader : String := "x-aster-access-key"

/-- The other three headers, after the access key. -/
def signedHeaders (texts : AuthTexts) (req : InternalRequest) (accessKey : String) : Except AuthError SignedHeaders := do
  let text ← headerValue req "x-aster-timestamp"
  let timestamp ← okOr (parseI64 text) (.tokenInvalid texts.timestamp)
  let nonce ← headerValue req "x-aster-nonce"
  let signature ← headerValue req "x-aster-signature"
  return { accessKey, timestamp, nonce, signature }

def outsideSkew (now timestamp : ℤ) : Bool := internalAuthSkewSecs < absI64 (wrapI64 (now - timestamp))

def declaredBodySha256 (req : InternalRequest) : String := (req.header "x-aster-content-sha256").getD ""

abbrev NonceCache := ExpiringSet String

/-- `set_bytes_if_absent` with the lifetime of a nonce. -/
def claimNonce (texts : AuthTexts) (cache : NonceCache) (now : Instant) (key : String) : Except AuthError NonceCache := do
  ensure (cache.setIfAbsent key now.nanos internalAuthNonceTtl).2 (.tokenInvalid texts.nonce)
  return (cache.setIfAbsent key now.nanos internalAuthNonceTtl).1

structure MasterBinding where
  secretKey : String
  isEnabled : Bool

def internalAuthTexts : AuthTexts where
  timestamp := "invalid internal auth timestamp"
  skew := "internal auth timestamp is outside allowed skew"
  signature := "internal auth signature mismatch"
  nonce := "internal auth nonce has already been used"

def authorizeBindingRequest (bindings : String → Option MasterBinding) (allowDisabled : Bool) (cache : NonceCache)
    (now : Instant) (req : InternalRequest) : Except AuthError NonceCache := do
  let accessKey ← headerValue req accessKeyHeader
  let headers ← signedHeaders internalAuthTexts req accessKey
  ensure (!outsideSkew now.timestamp headers.timestamp) (.tokenInvalid internalAuthTexts.skew)
  let binding ← okOr (bindings headers.accessKey) (.credentialsInvalid "unknown internal access_key")
  ensure (allowDisabled || binding.isEnabled) .bindingDisabled
  let contentLength := (req.header "content-length").bind parseU64
  ensure (verifyInternalRequestSignature mac binding.secretKey req.method req.pathAndQuery headers.timestamp headers.nonce
      contentLength (some (declaredBodySha256 req)) headers.signature)
    (.credentialsInvalid internalAuthTexts.signature)
  claimNonce internalAuthTexts cache now ("internal_remote_nonce:" ++ headers.accessKey ++ ":" ++ headers.nonce)

def remoteNodeAuthTexts : AuthTexts where
  timestamp := "invalid remote node auth timestamp"
  skew := "remote node auth timestamp is outside allowed skew"
  signature := "remote node auth signature mismatch"
  nonce := "remote node auth nonce has already been used"

/-- `followers`: the secret keys of the remote nodes. -/
def authorizeRemoteNodeRequest (followers : String → Option String) (contentLength : Option ℕ) (cache : NonceCache)
    (now : Instant) (req : InternalRequest) : Except AuthError NonceCache := do
  let accessKey ← headerValue req accessKeyHeader
  let headers ← signedHeaders remoteNodeAuthTexts req accessKey
  ensure (!outsideSkew now.timestamp headers.timestamp) (.tokenInvalid remoteNodeAuthTexts.skew)
  let secretKey ← okOr (followers headers.accessKey) (.credentialsInvalid "unknown remote node access_key")
  ensure (verifyInternalRequestSignature mac secretKey req.method req.pathAndQuery headers.timestamp headers.nonce
      contentLength (some (declaredBodySha256 req)) headers.signature)
    (.credentialsInvalid remoteNodeAuthTexts.signature)
  claimNonce remoteNodeAuthTexts cache now ("remote_node_nonce:" ++ headers.accessKey ++ ":" ++ headers.nonce)

def proxyAuthTexts : AuthTexts where
  timestamp := "invalid tunnel proxy timestamp"
  skew := "tunnel proxy timestamp is outside allowed skew"
  signature := "tunnel proxy signature mismatch"
  nonce := "tunnel proxy nonce has already been used"

/-- `str::trim().is_empty()` -/
def isBlank (text : String) : Bool := text.toList.all Tunnel.isWhitespace

/-- `fenced`: what `verify_local_fencing` says at that moment. -/
def authorizeProxyRequest (proxySecret : String) (signedRuntimeId : Option String) (contentLength : Option ℕ)
    (fenced : Bool) (cache : NonceCache) (now : Instant) (req : InternalRequest) : Except AuthError NonceCache := do
  let runtimeId ← headerValue req accessKeyHeader
  ensure (!signedRuntimeId.any fun signed => isBlank signed || runtimeId != signed)
    (.credentialsInvalid "tunnel proxy runtime identity mismatch")
  let headers ← signedHeaders proxyAuthTexts req runtimeId
  ensure (!outsideSkew now.timestamp headers.timestamp) (.tokenInvalid proxyAuthTexts.skew)
  ensure (verifyInternalRequestSignature mac proxySecret req.method req.pathAndQuery headers.timestamp headers.nonce
      contentLength none headers.signature)
    (.credentialsInvalid proxyAuthTexts.signature)
  ensure fenced (.credentialsInvalid "tunnel proxy fencing token is stale")
  claimNonce proxyAuthTexts cache now ("remote_tunnel_proxy_nonce:" ++ headers.nonce)

end Verifiers

/-! ### Deliveries -/

inductive Verifier
  | binding | remoteNode | proxy
  deriving DecidableEq

/-- A verifier, with what it looks up when the request arrives. -/
inductive Check
  | binding (bindings : String → Option MasterBinding) (allowDisabled : Bool)
  | remoteNode (followers : String → Option String) (contentLength : Option ℕ)
  | proxy (proxySecret : String) (signedRuntimeId : Option String) (contentLength : Option ℕ) (fenced : Bool)

def Check.verifier : Check → Verifier
  | binding .. => .binding
  | remoteNode .. => .remoteNode
  | proxy .. => .proxy

/-- What a signed request is told by: the verifier it is for, its access key, its nonce and its timestamp. -/
structure Identity where
  verifier : Verifier
  accessKey : String
  nonce : String
  timestamp : ℤ
  deriving DecidableEq

/-- The identity that the headers give, if they are complete. -/
def Check.identity (check : Check) (req : InternalRequest) : Option Identity := do
  let accessKey ← (headerValue req accessKeyHeader).toOption
  let headers ← (signedHeaders internalAuthTexts req accessKey).toOption
  return ⟨check.verifier, accessKey, headers.nonce, headers.timestamp⟩

structure Delivery where
  time : Instant
  check : Check
  request : InternalRequest

/-- A request that was delivered, or accepted. -/
structure Arrival where
  identity : Identity
  time : Instant

def Delivery.arrival (d : Delivery) : Option Arrival := (d.check.identity d.request).map fun id => ⟨id, d.time⟩

section Runs

variable (mac : String → String → List UInt8)

def Check.authorize (cache : NonceCache) (now : Instant) (req : InternalRequest) : Check → Except AuthError NonceCache
  | binding bindings allowDisabled => authorizeBindingRequest mac bindings allowDisabled cache now req
  | remoteNode followers contentLength => authorizeRemoteNodeRequest mac followers contentLength cache now req
  | proxy proxySecret signedRuntimeId contentLength fenced =>
    authorizeProxyRequest mac proxySecret signedRuntimeId contentLength fenced cache now req

/-- A node with its cache. `delivered` and `accepted` are what has come, in order. -/
structure Guarded where
  cache : NonceCache := .empty
  clock : Option ℤ := none
  delivered : List Arrival := []
  accepted : List Arrival := []

namespace Guarded

/-- A request comes, at a time that is not before the last one. -/
def step (s : Guarded) (d : Delivery) : Option Guarded :=
  if s.clock.all fun t => t ≤ d.time.nanos then
    some
      { cache := match d.check.authorize mac s.cache d.time d.request with
          | .ok cache => cache
          | .error _ => s.cache
        clock := some d.time.nanos
        delivered := s.delivered ++ d.arrival.toList
        accepted := match d.check.authorize mac s.cache d.time d.request with
          | .ok _ => s.accepted ++ d.arrival.toList
          | .error _ => s.accepted }
  else none

end Guarded

def guarded : Lts Guarded Delivery := ⟨Guarded.step mac⟩

/-- The entry of a request in the cache. -/
def Identity.key (id : Identity) : String :=
  match id.verifier with
  | .binding => "internal_remote_nonce:" ++ id.accessKey ++ ":" ++ id.nonce
  | .remoteNode => "remote_node_nonce:" ++ id.accessKey ++ ":" ++ id.nonce
  | .proxy => "remote_tunnel_proxy_nonce:" ++ id.nonce

namespace Guarded

/-- No request was accepted twice, and each one within the skew of its timestamp. -/
structure Fresh (s : Guarded) : Prop where
  once : (s.accepted.map Arrival.identity).Nodup
  skew : ∀ e ∈ s.accepted, (e.time.timestamp - e.identity.timestamp).natAbs ≤ internalAuthSkewSecs

/-- The request is not dated so far off that the difference wraps, and it does not come in the last second of its
window after the lifetime of its nonce, counted from a delivery in the first second. -/
def Timely (s : Guarded) (d : Delivery) : Prop :=
  ∀ a ∈ d.arrival.toList, (a.time.timestamp - a.identity.timestamp).natAbs ≠ 2 ^ 63 ∧
    ∀ e ∈ s.delivered, e.identity = a.identity → e.time.timestamp = a.identity.timestamp - internalAuthSkewSecs →
      a.time.timestamp = a.identity.timestamp + internalAuthSkewSecs → a.time.nanos < e.time.nanos + internalAuthNonceTtl

instance (s : Guarded) (d : Delivery) : Decidable (s.Timely d) := by
  unfold Timely
  infer_instance

end Guarded

end Runs

/-! ### What a verifier lets through -/

section Accepted

variable {mac : String → String → List UInt8} {texts texts' : AuthTexts} {req : InternalRequest} {accessKey key : String}
  {headers : SignedHeaders} {cache cache' : NonceCache} {now : Instant} {check : Check}

theorem signedHeaders_ok (h : signedHeaders texts req accessKey = .ok headers) :
    signedHeaders texts' req accessKey = .ok headers ∧ headers.accessKey = accessKey := by
  rw [signedHeaders] at h ⊢
  obtain ⟨text, htext, h⟩ := bind_ok h
  rw [htext]
  obtain ⟨timestamp, hts, h⟩ := bind_ok h
  obtain ⟨nonce, hnonce, h⟩ := bind_ok h
  obtain ⟨signature, hsig, h⟩ := bind_ok h
  cases h
  refine ⟨bind_ok_iff.mpr ⟨text, rfl, bind_ok_iff.mpr ⟨timestamp, okOr_ok_iff.mpr (okOr_ok_iff.mp hts), ?_⟩⟩, rfl⟩
  exact bind_ok_iff.mpr ⟨nonce, hnonce, bind_ok_iff.mpr ⟨signature, hsig, rfl⟩⟩

theorem claimNonce_ok (h : claimNonce texts cache now key = .ok cache') :
    cache.setIfAbsent key now.nanos internalAuthNonceTtl = (cache', true) := by
  obtain ⟨⟨⟩, hnew, h⟩ := bind_ok h
  exact Prod.ext (pure_ok_iff.mp h) (ensure_ok_iff.mp hnew)

theorem Check.identity_eq (hkey : headerValue req accessKeyHeader = .ok accessKey)
    (hheaders : signedHeaders texts req accessKey = .ok headers) :
    check.identity req = some ⟨check.verifier, headers.accessKey, headers.nonce, headers.timestamp⟩ := by
  have hparsed : signedHeaders internalAuthTexts req accessKey = .ok headers ∧ headers.accessKey = accessKey :=
    signedHeaders_ok hheaders
  rw [Check.identity, hkey]
  show ((signedHeaders internalAuthTexts req accessKey).toOption.bind fun h => _) = _
  rw [hparsed.1, hparsed.2]
  rfl

theorem Check.authorize_ok (h : check.authorize mac cache now req = .ok cache') :
    ∃ id, check.identity req = some id ∧ outsideSkew now.timestamp id.timestamp = false ∧
      cache.setIfAbsent id.key now.nanos internalAuthNonceTtl = (cache', true) := by
  cases check with
  | binding bindings allowDisabled =>
    obtain ⟨accessKey, hkey, h⟩ := bind_ok h
    obtain ⟨headers, hheaders, h⟩ := bind_ok h
    obtain ⟨⟨⟩, hskew, h⟩ := bind_ok h
    obtain ⟨binding, -, h⟩ := bind_ok h
    obtain ⟨⟨⟩, -, h⟩ := bind_ok h
    obtain ⟨⟨⟩, -, h⟩ := bind_ok h
    exact ⟨_, identity_eq hkey hheaders, (Bool.not_eq_true' _).mp (ensure_ok_iff.mp hskew), claimNonce_ok h⟩
  | remoteNode followers contentLength =>
    obtain ⟨accessKey, hkey, h⟩ := bind_ok h
    obtain ⟨headers, hheaders, h⟩ := bind_ok h
    obtain ⟨⟨⟩, hskew, h⟩ := bind_ok h
    obtain ⟨secretKey, -, h⟩ := bind_ok h
    obtain ⟨⟨⟩, -, h⟩ := bind_ok h
    exact ⟨_, identity_eq hkey hheaders, (Bool.not_eq_true' _).mp (ensure_ok_iff.mp hskew), claimNonce_ok h⟩
  | proxy proxySecret signedRuntimeId contentLength fenced =>
    obtain ⟨runtimeId, hkey, h⟩ := bind_ok h
    obtain ⟨⟨⟩, -, h⟩ := bind_ok h
    obtain ⟨headers, hheaders, h⟩ := bind_ok h
    obtain ⟨⟨⟩, hskew, h⟩ := bind_ok h
    obtain ⟨⟨⟩, -, h⟩ := bind_ok h
    obtain ⟨⟨⟩, -, h⟩ := bind_ok h
    exact ⟨_, identity_eq hkey hheaders, (Bool.not_eq_true' _).mp (ensure_ok_iff.mp hskew), claimNonce_ok h⟩

theorem parseI64_range {text : String} {v : ℤ} (h : parseI64 text = some v) : i64Min ≤ v ∧ v ≤ i64Max :=
  of_decide_eq_true (filter_eq_some_iff.mp h).2

theorem toOption_eq_some_iff {ε α : Type} {x : Except ε α} {a : α} : x.toOption = some a ↔ x = .ok a := by
  cases x <;> simp [Except.toOption]

theorem Check.identity_some {id : Identity} (h : check.identity req = some id) :
    id.verifier = check.verifier ∧ headerValue req accessKeyHeader = .ok id.accessKey ∧
      headerValue req "x-aster-nonce" = .ok id.nonce ∧ ∃ text, parseI64 text = some id.timestamp := by
  obtain ⟨accessKey, hkey, h⟩ := bind_eq_some_iff.mp h
  obtain ⟨headers, hheaders, h⟩ := bind_eq_some_iff.mp h
  cases h
  obtain ⟨text, -, hheaders⟩ := bind_ok ((toOption_eq_some_iff).mp hheaders)
  obtain ⟨timestamp, htimestamp, hheaders⟩ := bind_ok hheaders
  obtain ⟨nonce, hnonce, hheaders⟩ := bind_ok hheaders
  obtain ⟨signature, -, hheaders⟩ := bind_ok hheaders
  cases hheaders
  exact ⟨rfl, (toOption_eq_some_iff).mp hkey, hnonce, text, okOr_ok_iff.mp htimestamp⟩

theorem Check.identity_range {id : Identity} (h : check.identity req = some id) :
    i64Min ≤ id.timestamp ∧ id.timestamp ≤ i64Max :=
  have ⟨_, _, _, _, htimestamp⟩ := identity_some h
  parseI64_range htimestamp

theorem within_skew {timestamp : ℤ} (hrange : i64Min ≤ timestamp ∧ timestamp ≤ i64Max)
    (h : outsideSkew now.timestamp timestamp = false) :
    (now.timestamp - timestamp).natAbs ≤ internalAuthSkewSecs ∨ (now.timestamp - timestamp).natAbs = 2 ^ 63 := by
  have hnow : -8334601228800 ≤ now.timestamp ∧ now.timestamp ≤ 8210266876799 := now.inRange
  have hin : absI64 (wrapI64 (now.timestamp - timestamp)) ≤ 300 := Int.not_lt.mp (of_decide_eq_false h)
  simp only [absI64, wrapI64, i64Min, i64Max, Int.bmod, internalAuthSkewSecs] at *
  omega

end Accepted

/-! ### Runs of deliveries -/

namespace Guarded

variable {mac : String → String → List UInt8} {s s' : Guarded} {d : Delivery}

/-- A delivery leaves the node as it is, but for the time and what has come, or it is accepted. -/
theorem step_cases (h : s.step mac d = some s') :
    s' = { s with clock := some d.time.nanos, delivered := s.delivered ++ d.arrival.toList } ∨
      ∃ id cache, d.check.identity d.request = some id ∧ outsideSkew d.time.timestamp id.timestamp = false ∧
        s.cache.setIfAbsent id.key d.time.nanos internalAuthNonceTtl = (cache, true) ∧
        s' = ⟨cache, some d.time.nanos, s.delivered ++ [⟨id, d.time⟩], s.accepted ++ [⟨id, d.time⟩]⟩ := by
  rw [step, ite_none_right_eq_some] at h
  obtain rfl := some.inj h.2
  cases hres : d.check.authorize mac s.cache d.time d.request with
  | error e => exact .inl rfl
  | ok cache =>
    obtain ⟨id, hid, hskew, hcache⟩ := Check.authorize_ok hres
    have harrival : d.arrival.toList = [⟨id, d.time⟩] := by simp [Delivery.arrival, hid]
    rw [harrival]
    exact .inr ⟨id, cache, hid, hskew, hcache, rfl⟩

/-- The nonce of every request that was accepted is taken for its lifetime. -/
structure Kept (s : Guarded) : Prop extends s.Fresh where
  delivered : ∀ e ∈ s.accepted, e ∈ s.delivered
  taken : ∀ e ∈ s.accepted, s.cache.Lasts e.identity.key (e.time.nanos + internalAuthNonceTtl)

theorem kept_step (hs : s.Kept) (hg : s.Timely d) (h : s.step mac d = some s') : s'.Kept := by
  obtain rfl | ⟨id, cache, hid, hskew, hcache, rfl⟩ := step_cases h
  · exact ⟨⟨hs.once, hs.skew⟩, fun e he => mem_append_left _ (hs.delivered e he), hs.taken⟩
  · have ha : (⟨id, d.time⟩ : Arrival) ∈ d.arrival.toList := by simp [Delivery.arrival, hid]
    obtain ⟨hwrap, hlast⟩ := hg _ ha
    have hnew : (d.time.timestamp - id.timestamp).natAbs ≤ internalAuthSkewSecs :=
      (within_skew (Check.identity_range hid) hskew).resolve_right hwrap
    have hinserted : (s.cache.setIfAbsent id.key d.time.nanos internalAuthNonceTtl).2 = true := by rw [hcache]
    have hcache' : (s.cache.setIfAbsent id.key d.time.nanos internalAuthNonceTtl).1 = cache := by rw [hcache]
    have hfirst : ∀ e ∈ s.accepted, e.identity ≠ id := by
      intro e he heq
      have hold : e.time.nanos + internalAuthNonceTtl ≤ d.time.nanos := (heq ▸ hs.taken e he).le_of_inserted hinserted
      have hold' := heq ▸ hs.skew e he
      have hearly := hlast e (hs.delivered e he) heq
      simp only [Instant.timestamp, internalAuthNonceTtl, internalAuthSkewSecs] at *
      omega
    refine ⟨⟨?_, ?_⟩, ?_, ?_⟩
    · rw [map_append, nodup_append]
      exact ⟨hs.once, nodup_singleton _, by simpa using hfirst⟩
    · intro e he
      rcases mem_append.mp he with he | he
      · exact hs.skew e he
      · obtain rfl := mem_singleton.mp he
        exact hnew
    · intro e he
      rcases mem_append.mp he with he | he
      · exact mem_append_left _ (hs.delivered e he)
      · exact mem_append_right _ he
    · intro e he
      rw [← hcache']
      rcases mem_append.mp he with he | he
      · exact (hs.taken e he).setIfAbsent (by decide)
      · obtain rfl := mem_singleton.mp he
        exact ExpiringSet.lasts_of_inserted hinserted

theorem kept_start : Kept {} :=
  ⟨⟨nodup_nil, fun _ he => absurd he (not_mem_nil)⟩, fun _ he => absurd he (not_mem_nil),
    fun _ he => absurd he (not_mem_nil)⟩

end Guarded

/-- **No signed request is accepted twice**, and none outside its window, as long as no timestamp is off by `2 ^ 63`
and none comes again in the last second of its window after one in the first. -/
theorem signed_request_accepted_once {mac : String → String → List UInt8} {s : Guarded}
    (h : (guarded mac).Reach Guarded.Timely {} s) : s.Fresh :=
  (h.induct Guarded.kept_start Guarded.kept_step).toFresh

/-! ### A request of a primary -/

def objectRequest : InternalRequest where
  method := "GET"
  pathAndQuery := "/api/v1/internal/storage/objects/a"
  header name :=
    [("x-aster-access-key", "ak"), ("x-aster-timestamp", "1700000000"), ("x-aster-nonce", "nonce-1"),
      ("x-aster-content-sha256", emptyBodySha256),
      ("x-aster-signature", "28a75ce8260b7fd0a8e1ac1cc79be23589f4870d6b87b9e47491a2678af420da")].lookup name

def objectCheck : Check := .binding (fun accessKey => if accessKey = "ak" then some ⟨"secret", true⟩ else none) false

/-- Key and text, and nothing lost. -/
def plainMac (key text : String) : List UInt8 :=
  List.replicate key.length 1 ++ 0 :: (key ++ text).toByteArray.data.toList

theorem plainMac_injective : Function.Injective2 plainMac := by
  have hmarks : ∀ {n m : ℕ} {l l' : List UInt8},
      List.replicate n 1 ++ 0 :: l = List.replicate m 1 ++ 0 :: l' → n = m ∧ l = l' := by
    intro n
    induction n with
    | zero =>
      intro m l l' h
      cases m with
      | zero => exact ⟨rfl, tail_eq_of_cons_eq h⟩
      | succ m => exact absurd (head_eq_of_cons_eq h) (by decide)
    | succ n ih =>
      intro m l l' h
      cases m with
      | zero => exact absurd (head_eq_of_cons_eq h) (by decide)
      | succ m =>
        obtain ⟨hn, hl⟩ := ih (tail_eq_of_cons_eq h)
        exact ⟨congrArg _ hn, hl⟩
  intro key key' text text' h
  obtain ⟨hlen, hdata⟩ := hmarks h
  have happ : key ++ text = key' ++ text' := String.toByteArray_inj.mp (ByteArray.ext (Array.toList_inj.mp hdata))
  have hlists : key.toList ++ text.toList = key'.toList ++ text'.toList := by
    rw [← String.toList_append, ← String.toList_append, happ]
  obtain ⟨hkey, htext⟩ := append_inj hlists (by rw [String.length_toList, String.length_toList, hlen])
  exact ⟨String.toList_inj.mp hkey, String.toList_inj.mp htext⟩

/-- One that is injective, and gives the HMAC of the request. -/
def objectMac (key text : String) : List UInt8 :=
  Equiv.swap (plainMac "secret" (canonical "GET" "/api/v1/internal/storage/objects/a" 1700000000 "nonce-1" none emptyBodySha256))
    [40, 167, 92, 232, 38, 11, 127, 208, 168, 225, 172, 28, 199, 155, 226, 53, 137, 244, 135, 13, 107, 135, 185, 228, 116,
      145, 162, 103, 138, 244, 32, 218] (plainMac key text)

theorem objectMac_injective : Function.Injective2 objectMac :=
  fun _ _ _ _ h => plainMac_injective ((Equiv.swap _ _).injective h)

/-- The request comes, `nanos` after its timestamp. -/
def objectDelivery (nanos : ℤ) (h : -8334601228800 ≤ (1700000000000000000 + nanos) / 1000000000 ∧
    (1700000000000000000 + nanos) / 1000000000 ≤ 8210266876799) : Delivery :=
  ⟨⟨1700000000000000000 + nanos, h⟩, objectCheck, objectRequest⟩

/-- The request comes twice in one second. -/
def hastyReplay : List Delivery := [objectDelivery 0 (by decide), objectDelivery 1000000000 (by decide)]

theorem signed_request_accepted_once_hasty : ∃ s, (guarded objectMac).run Guarded.Timely hastyReplay {} = some s ∧
    s.delivered.length = 2 ∧ s.accepted.length = 1 ∧ s.Fresh := by
  have hrun : ((guarded objectMac).run Guarded.Timely hastyReplay {}).map (fun s =>
      (s.delivered.length, s.accepted.length)) = some (2, 1) := by decide +kernel
  obtain ⟨s, hs, hdelivered, haccepted⟩ := map_pair_eq_some hrun
  exact ⟨s, hs, hdelivered, haccepted, signed_request_accepted_once (Lts.reach_of_run hs)⟩

/-- The request comes `300 s` before its timestamp by this node's clock, and again `300.5 s` after. -/
def lateReplay : List Delivery := [objectDelivery (-300000000000) (by decide), objectDelivery 300500000000 (by decide)]

theorem replay_in_last_second : ¬ ∀ mac, Function.Injective2 mac → ∀ s, (guarded mac).Reach Lts.free {} s → s.Fresh := by
  intro hfresh
  have hrun : ((guarded objectMac).run Lts.free lateReplay {}).map (fun s => s.accepted.map Arrival.identity) =
      some [⟨.binding, "ak", "nonce-1", 1700000000⟩, ⟨.binding, "ak", "nonce-1", 1700000000⟩] := by decide +kernel
  obtain ⟨s, hs, haccepted⟩ := map_eq_some_iff.mp hrun
  have honce := (hfresh objectMac objectMac_injective s (Lts.reach_of_run hs)).once
  rw [haccepted] at honce
  simp at honce

end AsterDrive.Remote
