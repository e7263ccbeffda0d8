import AsterDrive.Upload.Completion

/-!
# BrowserSession — what a browser-coordinated upload persists, and one call of `advance_session`

A `ProviderDirectResumable` session keeps its protocol state encrypted in one column. A call reads the
row, hands the private state and, if the report answers the pending request, a receipt to the driver's
adapter, checks the transition that comes back and replaces the column if it still holds what was
read.

The adapter, the cipher, the URL parser and the JSON values of the private state (`ς`) are not part of
the program: `Outside` collects what it takes from them.
-/

namespace AsterDrive.Upload.Browser

/-- `RESPONSE_BODY_LIMIT`. -/
def responseBodyLimit : ℕ := 64 * 1024

/-- `PRIVATE_STATE_LIMIT`. -/
def privateStateLimit : ℕ := 32 * 1024

/-- `MAX_SAFE_INTEGER`. -/
def maxSafeInteger : ℕ := 9007199254740991

/-! ### Requests and observations -/

structure BrowserUploadProtocol where
  id : String
  version : ℕ
  deriving DecidableEq

inductive BrowserUploadMethod
  | get | put | post | patch | delete
  deriving DecidableEq

/-- Half-open: `start` is in the range, `stop` is not. -/
structure BrowserUploadRange where
  start : ℕ
  stop : ℕ
  deriving DecidableEq

structure BrowserUploadAuthorization where
  scheme : String
  token : String
  deriving DecidableEq

inductive BrowserUploadCompletion
  | responseHeader (name : String)
  | fixed (token : String)
  | providerReconciled
  deriving DecidableEq

/-- Header maps are lists that are sorted by name. -/
structure BrowserUploadRequest where
  url : String
  method : BrowserUploadMethod
  headers : List (String × String)
  authorization : Option BrowserUploadAuthorization
  completion : Option BrowserUploadCompletion
  body : Option BrowserUploadRange
  responseHeaders : List String
  deriving DecidableEq

/-- Status zero: the browser could not observe a response. -/
structure BrowserUploadObservation where
  status : ℕ
  headers : List (String × String)
  body : String
  bodyTruncated : Bool

structure BrowserUploadReport where
  requestId : Option String
  observation : Option BrowserUploadObservation

structure BrowserUploadInstruction where
  requestId : String
  request : BrowserUploadRequest
  responseBodyLimit : ℕ
  timeoutMs : ℕ
  deriving DecidableEq

/-- What the adapter answers. -/
structure BrowserUploadTransition (ς : Type) where
  privateState : ς
  confirmedOffset : ℕ
  providerCompleted : Bool
  request : Option BrowserUploadRequest

/-- What the adapter learns of the browser's last request. -/
structure BrowserUploadReceipt where
  request : BrowserUploadRequest
  observation : BrowserUploadObservation

/-- `BrowserSession`, the persisted value. -/
structure BrowserSession (ς : Type) where
  protocol : BrowserUploadProtocol
  privateState : ς
  confirmedOffset : ℕ
  progressRevision : ℕ
  providerCompleted : Bool
  pending : Option BrowserUploadInstruction
  deriving DecidableEq

structure ProviderSessionSecret (ς : Type) where
  provider : String
  uploadUrl : String
  browser : Option (BrowserSession ς)
  deriving DecidableEq

/-- What `url::Url::parse` finds. -/
structure ParsedUrl where
  scheme : String
  hostStr : Option String
  username : String
  password : Option String
  fragment : Option String

/-- What the program takes from elsewhere; `κ` are ciphertexts. -/
structure Outside (κ ς : Type) where
  null : ς
  encodedLength : ς → Option ℕ
  parseUrl : String → Option ParsedUrl
  supportsProtocol : BrowserUploadProtocol → Bool
  encrypt : ℕ → ProviderSessionSecret ς → κ
  decrypt : κ → Except AsterError (ProviderSessionSecret ς)
  ciphertextLength : κ → ℕ

/-- What the program relies on of its cipher: what was encrypted is decrypted, and a ciphertext
determines its nonce and its plaintext. -/
structure Outside.SoundCipher {κ ς : Type} (out : Outside κ ς) : Prop where
  decrypts : ∀ nonce secret, out.decrypt (out.encrypt nonce secret) = .ok secret
  injective : ∀ nonce nonce' secret secret', out.encrypt nonce secret = out.encrypt nonce' secret' →
    nonce = nonce' ∧ secret = secret'

def invalid (message : String) : AsterError := .validationError { message }

/-! ### `validate_report` -/

def validHeaderName (name : String) : Bool :=
  name ≠ "" ∧ name.toList.all fun c => c.isAlphanum || "!#$%&'*+-.^_`|~".toList.contains c

def hasLineBreak (s : String) : Bool := s.toList.any fun c => c = '\r' ∨ c = '\n'

def observationExceeds (o : BrowserUploadObservation) : Bool :=
  599 < o.status ∨ (o.status ≠ 0 ∧ o.status < 100) ∨ responseBodyLimit < o.body.utf8ByteSize ∨
    32 < o.headers.length ∨ o.headers.any fun p =>
      128 < p.1.utf8ByteSize ∨ 8192 < p.2.utf8ByteSize ∨ !validHeaderName p.1 ∨ hasLineBreak p.2

def validateReport (report : BrowserUploadReport) : Except AsterError Unit :=
  if report.requestId.isSome ≠ report.observation.isSome ∨ report.requestId.any fun id => 64 < id.utf8ByteSize then
    .error (invalid "browser upload report must pair request ID and observation")
  else if report.observation.any observationExceeds then
    .error (invalid "browser upload observation exceeds its contract")
  else .ok ()

/-! ### `validate_transition` -/

def forbiddenHeaders : List String :=
  ["authorization", "proxy-authorization", "cookie", "cookie2", "host", "origin", "referer",
    "content-length", "connection", "transfer-encoding", "accept-encoding", "x-csrf-token",
    "set-cookie"]

def forbiddenHeader (name : String) : Bool :=
  let name := name.toLower
  forbiddenHeaders.contains name || name.startsWith "sec-" || name.startsWith "proxy-" ||
    name.startsWith "access-control-"

def unsafeAuthorization (auth : BrowserUploadAuthorization) : Bool :=
  auth.scheme = "" ∨ (auth.scheme.toList.all fun c => c.isAlphanum || c = '-' || c = '_') = false ∨
    auth.token = "" ∨ 8192 < auth.token.utf8ByteSize ∨ hasLineBreak auth.token

def unsafeUrl (request : BrowserUploadRequest) (url : ParsedUrl) : Bool :=
  ¬ (url.scheme = "https" ∨ url.scheme = "http") ∨ url.hostStr = none ∨ url.username ≠ "" ∨
    url.password.isSome ∨ url.fragment.isSome ∨ 8192 < request.url.utf8ByteSize

def unsafeHeaders (request : BrowserUploadRequest) : Bool :=
  32 < request.headers.length ∨ (request.headers.any fun p => !validHeaderName p.1 ∨ forbiddenHeader p.1 ∨
      8192 < p.2.utf8ByteSize ∨ hasLineBreak p.2) ∨
    32 < request.responseHeaders.length ∨
    request.responseHeaders.any fun k => !validHeaderName k ∨ forbiddenHeader k

def validateRange (request : BrowserUploadRequest) (total : ℕ) : Except AsterError Unit :=
  match request.body with
  | none => .ok ()
  | some range =>
    if range.stop ≤ range.start ∨ total < range.stop then
      .error (invalid "invalid browser upload file range")
    else if request.method = .get then
      .error (invalid "GET upload instruction cannot carry file bytes")
    else .ok ()

section

variable {κ ς : Type} (out : Outside κ ς)

def validateRequest (request : BrowserUploadRequest) (total : ℕ) : Except AsterError Unit :=
  if request.authorization.any unsafeAuthorization then
    .error (invalid "unsafe browser upload capability")
  else match out.parseUrl request.url with
    | none => .error (invalid "invalid browser upload URL")
    | some url =>
      if unsafeUrl request url then .error (invalid "unsafe browser upload URL")
      else if unsafeHeaders request then .error (invalid "unsafe browser upload headers")
      else validateRange request total

def inconsistentProgress (value : BrowserUploadTransition ς) (previous total : ℕ) : Bool :=
  total = 0 ∨ maxSafeInteger < total ∨ value.confirmedOffset < previous ∨
    total < value.confirmedOffset ∨ (value.providerCompleted ∧ value.confirmedOffset ≠ total) ∨
    value.providerCompleted = value.request.isSome

def validateTransition (value : BrowserUploadTransition ς) (previous total : ℕ) :
    Except AsterError Unit :=
  if inconsistentProgress value previous total then
    .error (invalid "driver returned inconsistent browser upload progress")
  else match out.encodedLength value.privateState with
    | none => .error (invalid "invalid browser protocol state")
    | some length =>
      if privateStateLimit < length then
        .error (invalid "browser protocol state is too large")
      else match value.request with
        | none => .ok ()
        | some request => validateRequest out request total

/-! ### The call -/

/-- `BrowserSession::new`. -/
def BrowserSession.new (protocol : BrowserUploadProtocol) : BrowserSession ς :=
  { protocol, privateState := out.null, confirmedOffset := 0, progressRevision := 0
    providerCompleted := false, pending := none }

/-- `BrowserUploadStep`, without its executor version. -/
structure BrowserUploadStep where
  protocol : BrowserUploadProtocol
  confirmedOffset : ℕ
  progressRevision : ℕ
  providerCompleted : Bool
  instruction : Option BrowserUploadInstruction

def BrowserSession.step (b : BrowserSession ς) : BrowserUploadStep :=
  { protocol := b.protocol, confirmedOffset := b.confirmedOffset
    progressRevision := b.progressRevision, providerCompleted := b.providerCompleted
    instruction := b.pending }

def legacyProtocol (provider : String) : Except AsterError BrowserUploadProtocol :=
  if provider = "microsoft_graph" then
    .ok { id := "asterdrive.microsoft_graph.resumable", version := 1 }
  else if provider = "google_drive" then
    .ok { id := "asterdrive.google_drive.resumable", version := 1 }
  else .error (invalid "legacy upload protocol is unknown; restart the upload")

/-- The session that a secret stands for: a legacy secret has none yet. -/
def ProviderSessionSecret.session (secret : ProviderSessionSecret ς) : Except AsterError (BrowserSession ς) :=
  match secret.browser with
  | some value => .ok value
  | none => (legacyProtocol secret.provider).map (BrowserSession.new out)

/-- The insertion into a header map. -/
def insertHeader (name value : String) : List (String × String) → List (String × String)
  | [] => [(name, value)]
  | (k, v) :: rest =>
    if name < k then (name, value) :: (k, v) :: rest
    else if name = k then (name, value) :: rest
    else (k, v) :: insertHeader name value rest

def eqIgnoreAsciiCase (a b : String) : Bool := a.toLower = b.toLower

/-- Names are normalized, and what the pending instruction did not ask for is dropped. -/
def normalizeHeaders (allowed : Option (List String)) (headers : List (String × String)) : List (String × String) :=
  (headers.filter fun p => allowed.any fun names => names.any fun name => eqIgnoreAsciiCase name p.1
    ).foldl (fun m p => insertHeader p.1.toLower p.2 m) []

def normalizeObservation (pending : Option BrowserUploadInstruction) (o : BrowserUploadObservation) :
    BrowserUploadObservation :=
  { o with headers := normalizeHeaders (pending.map fun p => p.request.responseHeaders) o.headers }

/-- The receipt for the adapter: only a report of the pending request gives one. -/
def receiptFor (pending : Option BrowserUploadInstruction) (report : BrowserUploadReport) :
    Option BrowserUploadReceipt :=
  match pending, report.observation with
  | some p, some o =>
    if report.requestId = some p.requestId then
      some { request := p.request, observation := normalizeObservation pending o }
    else none
  | _, _ => none

/-- The row, with the column of the encrypted session. -/
structure Row (κ : Type) where
  session : UploadSession
  providerSessionCiphertext : Option κ

/-- What a call passes to the adapter, and what it keeps for its second half. -/
structure AdapterCall (κ ς : Type) where
  row : Row κ
  report : BrowserUploadReport
  secret : ProviderSessionSecret ς
  browser : BrowserSession ς
  totalSize : ℕ
  previous : κ
  receipt : Option BrowserUploadReceipt

def toU64 (n : ℤ) (e : AsterError) : Except AsterError ℕ := if n < 0 then .error e else .ok n.toNat

def orError {α : Type} (o : Option α) (e : AsterError) : Except AsterError α :=
  match o with
  | some a => .ok a
  | none => .error e

/-- `validate_persisted_kind`, with the encrypted session. -/
def resolveKind (row : Row κ) : Except AsterError UploadSessionKind := do
  let kind ← resolveUploadSessionKind row.session
  if kind.isProviderResumable ≠ row.providerSessionCiphertext.isSome then
    .error (uploadAssemblyError .uploadSessionCorrupted
      ("session kind " ++ kind.asStr ++ " does not match provider session metadata"))
  else .ok kind

def decryptProviderSession (row : Row κ) : Except AsterError (κ × ProviderSessionSecret ς) := do
  let ciphertext ← orError row.providerSessionCiphertext
    (.databaseOperation { message := "provider upload session metadata is missing" })
  let secret ← out.decrypt ciphertext
  .ok (ciphertext, secret)

def checkCoordinated (kind : UploadSessionKind) (session : UploadSession) (now : ℕ) :
    Except AsterError Unit :=
  if kind ≠ .providerDirectResumable then
    .error (invalid "upload does not support browser coordination")
  else if session.status ≠ .uploading then
    .error (uploadStatusConflict session.status .uploading)
  else if session.expiresAt ≤ now then
    .error (.uploadSessionExpired { message := "upload session expired" })
  else .ok ()

/-- `advance_session` up to the adapter. `driver` is the outcome of the policy, driver and adapter
lookups. -/
def beginAdvance (row : Row κ) (report : BrowserUploadReport) (now : ℕ)
    (driver : Except AsterError Unit) : Except AsterError (AdapterCall κ ς) := do
  validateReport report
  let kind ← resolveKind row
  checkCoordinated kind row.session now
  let (previous, secret) ← decryptProviderSession out row
  let browser ← secret.session out
  driver
  if out.supportsProtocol browser.protocol = false then
    .error (invalid "stored browser upload protocol is unsupported; restart the upload")
  else do
    let _ ← orError row.session.objectTempKey (invalid "upload object key is missing")
    let totalSize ← toU64 row.session.totalSize (invalid "invalid upload size")
    let _ ← toU64 row.session.chunkSize (invalid "invalid fragment size")
    .ok { row, report, secret, browser, totalSize, previous
          receipt := receiptFor browser.pending report }

def changes [DecidableEq ς] (b : BrowserSession ς) (t : BrowserUploadTransition ς) : Bool :=
  b.privateState ≠ t.privateState ∨ b.confirmedOffset ≠ t.confirmedOffset ∨ b.providerCompleted ≠ t.providerCompleted

/-- `checked_add(1).filter(<= MAX_SAFE_INTEGER)`. -/
def nextRevision [DecidableEq ς] (b : BrowserSession ς) (t : BrowserUploadTransition ς) :
    Except AsterError ℕ :=
  if changes b t then
    if b.progressRevision + 1 ≤ maxSafeInteger then .ok (b.progressRevision + 1)
    else .error (invalid "browser protocol progress revision overflow")
  else .ok b.progressRevision

def issue (requestId : String) (request : BrowserUploadRequest) : BrowserUploadInstruction :=
  { requestId, request, responseBodyLimit, timeoutMs := 60000 }

/-- The value after a transition. -/
def BrowserSession.applied (b : BrowserSession ς) (t : BrowserUploadTransition ς) (revision : ℕ)
    (requestId : String) : BrowserSession ς :=
  { b with
    privateState := t.privateState, confirmedOffset := t.confirmedOffset
    progressRevision := revision, providerCompleted := t.providerCompleted
    pending := t.request.map (issue requestId) }

/-- `encrypt_provider_session`. -/
def encryptProviderSession (nonce : ℕ) (secret : ProviderSessionSecret ς) : Except AsterError κ :=
  let ciphertext := out.encrypt nonce secret
  if secret.browser.isSome ∧ 60 * 1024 < out.ciphertextLength ciphertext then
    .error (invalid "encrypted browser upload state exceeds the persistence budget")
  else .ok ciphertext

/-- `advance_session` from the adapter's answer to the statement that replaces the column. -/
def finishAdvance [DecidableEq ς] (call : AdapterCall κ ς)
    (transition : Except AsterError (BrowserUploadTransition ς)) (requestId : String) (nonce : ℕ) :
    Except AsterError (ProviderSessionSecret ς × BrowserSession ς × κ) := do
  let t ← transition
  validateTransition out t call.browser.confirmedOffset call.totalSize
  let revision ← nextRevision call.browser t
  let browser := call.browser.applied t revision requestId
  let secret := { call.secret with browser := some browser }
  let next ← encryptProviderSession out nonce secret
  .ok (secret, browser, next)

/-- `compare_exchange_provider_session`; `none` if no row is affected. -/
def compareExchangeProviderSession [DecidableEq κ] (row : Row κ) (previous next : κ) (now : ℕ) : Option (Row κ) :=
  if row.session.sessionKind = .providerDirectResumable ∧ row.session.status = .uploading ∧
      now < row.session.expiresAt ∧ row.providerSessionCiphertext = some previous then
    some { session := { row.session with updatedAt := now }, providerSessionCiphertext := some next }
  else none

def changedWhileCoordinating : AsterError :=
  .ofStorage .transient "upload changed while coordinating; reload its authoritative state"

end

end AsterDrive.Upload.Browser
