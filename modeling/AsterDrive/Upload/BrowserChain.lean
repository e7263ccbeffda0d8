import AsterDrive.Lib.Interleave
import AsterDrive.Upload.BrowserSession

/-!
# BrowserChain — any number of tabs advance one browser-coordinated upload

A call loads the row, runs the first half of `advance_session`, waits for the adapter and then tries
to replace the column. Other requests may change the status and the expiry of the session or remove
it at any time.

Two ghosts: `history` is the sequence of persisted secrets, newest first, each with the call it came
from; `calls` are the adapter calls. A call records how many secrets had been persisted when it loaded
the row.
-/

namespace AsterDrive.Upload.Browser

open Interleave List Option Function

variable {κ ς : Type} (out : Outside κ ς)

/-- An adapter call, and the number of secrets that were persisted when its row was loaded. -/
structure Call (κ ς : Type) extends AdapterCall κ ς where
  base : ℕ

/-- A persisted secret: the nonce it was encrypted with, and the call that wrote it. -/
structure Entry (κ ς : Type) where
  secret : ProviderSessionSecret ς
  nonce : ℕ
  origin : Option (Call κ ς)

structure State (κ ς : Type) where
  row : Option (Row κ)
  history : List (Entry κ ς)
  calls : List (Call κ ς) := []

inductive Pc (κ ς : Type)
  | idle
  | loaded (report : BrowserUploadReport) (row : Row κ) (base : ℕ)
  | waiting (call : Call κ ς)
  | returned (result : Except AsterError BrowserUploadStep)

inductive Act (ς : Type)
  | load (report : BrowserUploadReport)
  | proceed (now : ℕ) (driver : Except AsterError Unit)
  | answer (transition : Except AsterError (BrowserUploadTransition ς)) (requestId : String) (nonce now : ℕ)
  | again
  | elsewhere (status : UploadSessionStatus) (expiresAt : ℕ) (fileId : Option ℕ) (updatedAt : ℕ)
  | remove

def Row.touched (r : Row κ) (status : UploadSessionStatus) (expiresAt : ℕ) (fileId : Option ℕ)
    (updatedAt : ℕ) : Row κ :=
  { r with session := { r.session with status, expiresAt, fileId, updatedAt } }

/-- The statement that ends a call, with its entry in the history. -/
def exchange [DecidableEq κ] (s : State κ ς) (call : Call κ ς) (nonce now : ℕ)
    (x : ProviderSessionSecret ς × BrowserSession ς × κ) : State κ ς × Pc κ ς :=
  match s.row.bind fun r => compareExchangeProviderSession r call.previous x.2.2 now with
  | none => (s, .returned (.error changedWhileCoordinating))
  | some row =>
    ({ s with row := some row, history := ⟨x.1, nonce, some call⟩ :: s.history }, .returned (.ok x.2.1.step))

def step [DecidableEq κ] [DecidableEq ς] (a : Act ς) (s : State κ ς) (p : Pc κ ς) : Option (State κ ς × Pc κ ς) :=
  match p, a with
  | .idle, .load report =>
    match s.row with
    | none => some (s, .returned (.error (.uploadSessionNotFound { message := "session" })))
    | some row => some (s, .loaded report row s.history.length)
  | .idle, .elsewhere status expiresAt fileId updatedAt =>
    some ({ s with row := s.row.map fun r => r.touched status expiresAt fileId updatedAt }, .idle)
  | .idle, .remove => some ({ s with row := none }, .idle)
  | .loaded report row base, .proceed now driver =>
    match beginAdvance out row report now driver with
    | .error e => some (s, .returned (.error e))
    | .ok call =>
      some ({ s with calls := ⟨call, base⟩ :: s.calls }, .waiting ⟨call, base⟩)
  | .waiting call, .answer transition requestId nonce now =>
    match finishAdvance out call.toAdapterCall transition requestId nonce with
    | .error e => some (s, .returned (.error e))
    | .ok x => some (exchange s call nonce now x)
  | .returned _, .again => some (s, .idle)
  | _, _ => none

def system [DecidableEq κ] [DecidableEq ς] : System (State κ ς) (Pc κ ς) (Act ς) := ⟨step out⟩

/-- A session as `plan` creates it: the protocol state is new, or a legacy secret has none. -/
structure Planned (session : UploadSession) (secret : ProviderSessionSecret ς) : Prop where
  nonneg : 0 ≤ session.totalSize
  browser : secret.browser = none ∨ ∃ protocol, secret.browser = some (BrowserSession.new out protocol)

def start (session : UploadSession) (secret : ProviderSessionSecret ς) (nonce : ℕ) : Config (State κ ς) (Pc κ ς) :=
  { shared :=
      { row := some { session, providerSessionCiphertext := some (out.encrypt nonce secret) }
        history := [⟨secret, nonce, none⟩] }
    proc := fun _ => .idle }

/-! ### One call, from a value to the next -/

/-- What `validate_transition` and the bookkeeping guarantee of two successive values. -/
structure StepOf [DecidableEq ς] (total : ℕ) (v v' : BrowserSession ς) : Prop where
  protocol : v'.protocol = v.protocol
  offset : v.confirmedOffset ≤ v'.confirmedOffset
  bounded : v'.confirmedOffset ≤ total
  completed : v'.providerCompleted = true → v'.confirmedOffset = total
  pending : v'.providerCompleted = v'.pending.isNone
  revision : v'.progressRevision = v.progressRevision +
    if v.privateState ≠ v'.privateState ∨ v.confirmedOffset ≠ v'.confirmedOffset ∨
      v.providerCompleted ≠ v'.providerCompleted then 1 else 0

section

variable {out} {v v' : BrowserSession ς} {t : BrowserUploadTransition ς} {total revision : ℕ} {requestId : String}

theorem validateTransition_ok {previous : ℕ} (h : validateTransition out t previous total = .ok ()) :
    previous ≤ t.confirmedOffset ∧ t.confirmedOffset ≤ total ∧
      (t.providerCompleted = true → t.confirmedOffset = total) ∧
      t.providerCompleted = t.request.isNone := by
  unfold validateTransition at h
  split_ifs at h with hprogress
  unfold inconsistentProgress at hprogress
  rw [decide_eq_true_eq] at hprogress
  push Not at hprogress
  obtain ⟨_, _, hprev, htotal, hdone, hreq⟩ := hprogress
  refine ⟨hprev, htotal, hdone, ?_⟩
  rcases hr : t.request with _ | request
  all_goals simpa [hr] using hreq

theorem nextRevision_ok [DecidableEq ς] (h : nextRevision v t = .ok revision) :
    revision = v.progressRevision + if changes v t then 1 else 0 := by
  unfold nextRevision at h
  split_ifs at h with hch hle
  · rw [if_pos hch]
    exact (Except.ok.inj h).symm
  · rw [if_neg hch]
    exact (Except.ok.inj h).symm

theorem stepOf_applied [DecidableEq ς] (hvalid : validateTransition out t v.confirmedOffset total = .ok ())
    (hrev : nextRevision v t = .ok revision) : StepOf total v (v.applied t revision requestId) := by
  obtain ⟨hprev, htotal, hdone, hreq⟩ := validateTransition_ok hvalid
  refine ⟨rfl, hprev, htotal, hdone, ?_, ?_⟩
  · show t.providerCompleted = (t.request.map (issue requestId)).isNone
    rw [hreq]
    cases t.request <;> rfl
  · show revision = _
    rw [nextRevision_ok hrev]
    unfold changes
    simp only [decide_eq_true_eq]
    rfl

end

/-! ### The chain -/

/-- `newer` was written by a call that started from `older`, the entry at `position`. -/
def Successive [DecidableEq ς] (total position : ℕ) (older newer : Entry κ ς) : Prop :=
  ∃ call v' t, newer.origin = some call ∧ call.base = position ∧ call.secret = older.secret ∧
    older.secret.session out = .ok call.browser ∧ newer.secret.browser = some v' ∧
    validateTransition out t call.browser.confirmedOffset total = .ok () ∧
    (∃ revision requestId, v' = call.browser.applied t revision requestId) ∧
    StepOf total call.browser v'

/-- Every entry but the first continues the one before it. -/
def Chained [DecidableEq ς] (total : ℕ) : List (Entry κ ς) → Prop
  | [] => True
  | newer :: rest =>
    (∀ older ∈ rest.head?, Successive out total rest.length older newer) ∧ Chained total rest

/-- The row that a call read held the secret of this entry, the last one at the time. -/
structure ReadFrom (history : List (Entry κ ς)) (base : ℕ) (ciphertext : κ) (e : Entry κ ς) : Prop where
  last : ∃ older, e :: older <:+ history ∧ (e :: older).length = base
  ciphertext : ciphertext = out.encrypt e.nonce e.secret

/-- An adapter call: its receipt is about the pending request of the value that it read, and the
report named that request. -/
structure Called (history : List (Entry κ ς)) (call : Call κ ς) : Prop where
  read : ∃ e, ReadFrom out history call.base call.previous e ∧ call.secret = e.secret ∧
    e.secret.session out = .ok call.browser
  paired : ∀ receipt, call.receipt = some receipt → ∃ p o, call.browser.pending = some p ∧
    call.report.requestId = some p.requestId ∧ call.report.observation = some o ∧
    receipt.request = p.request ∧ receipt.observation = normalizeObservation (some p) o

/-- The encryption uses a nonce that no persisted secret was encrypted with. -/
def freshNonce (s : State κ ς) : Act ς → Bool
  | .answer _ _ nonce _ => nonce ∉ s.history.map Entry.nonce
  | _ => true

def FreshNonce (s : State κ ς) (_ : Pc κ ς) (a : Act ς) : Prop := freshNonce s a = true

instance (s : State κ ς) (p : Pc κ ς) (a : Act ς) : Decidable (FreshNonce s p a) :=
  inferInstanceAs (Decidable (_ = true))

/-- The column holds the newest entry of a chain. -/
structure Coordinated [DecidableEq ς] (session : UploadSession) (s : State κ ς) : Prop where
  chained : Chained out session.totalSize.toNat s.history
  nonces : (s.history.map Entry.nonce).Nodup
  column : ∀ row, s.row = some row → row.session.totalSize = session.totalSize ∧ ∃ e older, s.history = e :: older ∧
      row.providerSessionCiphertext = some (out.encrypt e.nonce e.secret)
  calls : ∀ call ∈ s.calls, Called out s.history call

/-- What a call has read. -/
def HasRead (session : UploadSession) (s : State κ ς) : Pc κ ς → Prop
  | .loaded _ row base => row.session.totalSize = session.totalSize ∧
      ∃ e, ReadFrom out s.history base (out.encrypt e.nonce e.secret) e ∧
        row.providerSessionCiphertext = some (out.encrypt e.nonce e.secret)
  | .waiting call => Called out s.history call ∧ call.totalSize = session.totalSize.toNat
  | _ => True

section

variable {out} {session : UploadSession} {s s' : State κ ς} {p p' : Pc κ ς} {a : Act ς}
  {history history' : List (Entry κ ς)}

variable {base : ℕ}

theorem ReadFrom.suffix {ciphertext : κ} {e : Entry κ ς}
    (h : ReadFrom out history base ciphertext e) (hs : history <:+ history') :
    ReadFrom out history' base ciphertext e := by
  obtain ⟨older, hsuf, hlen⟩ := h.last
  exact ⟨⟨older, hsuf.trans hs, hlen⟩, h.ciphertext⟩

theorem Called.suffix {call : Call κ ς} (h : Called out history call) (hs : history <:+ history') :
    Called out history' call := by
  obtain ⟨e, hread, hrest⟩ := h.read
  exact ⟨⟨e, hread.suffix hs, hrest⟩, h.paired⟩

theorem HasRead.suffix (h : HasRead out session s p) (hs : s.history <:+ s'.history) : HasRead out session s' p := by
  cases p with
  | idle | returned result => trivial
  | loaded report row base =>
    obtain ⟨htotal, e, hread, hcol⟩ := h
    exact ⟨htotal, e, hread.suffix hs, hcol⟩
  | waiting call => exact ⟨h.1.suffix hs, h.2⟩

variable {report : BrowserUploadReport}

theorem receiptFor_some {pending : Option BrowserUploadInstruction}
    {receipt : BrowserUploadReceipt} (h : receiptFor pending report = some receipt) :
    ∃ p o, pending = some p ∧ report.requestId = some p.requestId ∧ report.observation = some o ∧
      receipt.request = p.request ∧ receipt.observation = normalizeObservation (some p) o := by
  unfold receiptFor at h
  rcases pending with _ | p
  · simp at h
  rcases ho : report.observation with _ | o
  · simp [ho] at h
  simp only [ho] at h
  split_ifs at h with hid
  cases h
  exact ⟨p, o, rfl, hid, rfl, rfl, rfl⟩

variable {now : ℕ} {call : AdapterCall κ ς}

theorem beginAdvance_ok {row : Row κ} {driver : Except AsterError Unit}
    (h : beginAdvance out row report now driver = .ok call) :
    row.providerSessionCiphertext = some call.previous ∧ out.decrypt call.previous = .ok call.secret ∧
      call.secret.session out = .ok call.browser ∧ call.totalSize = row.session.totalSize.toNat ∧
      call.report = report ∧ call.receipt = receiptFor call.browser.pending report := by
  obtain ⟨_, _, h1⟩ := bind_ok h
  obtain ⟨kind, _, h2⟩ := bind_ok h1
  obtain ⟨_, _, h3⟩ := bind_ok h2
  obtain ⟨⟨previous, secret⟩, hdec, h4⟩ := bind_ok h3
  obtain ⟨browser, hbrowser, h5⟩ := bind_ok h4
  obtain ⟨_, _, h6⟩ := bind_ok h5
  split_ifs at h6 with hsupp
  obtain ⟨key, _, h7⟩ := bind_ok h6
  obtain ⟨totalSize, htotal, h8⟩ := bind_ok h7
  obtain ⟨fragment, _, h9⟩ := bind_ok h8
  obtain rfl := Except.ok.inj h9
  obtain ⟨c, hc, hdec1⟩ := bind_ok hdec
  obtain ⟨sec, hsec, hdec2⟩ := bind_ok hdec1
  obtain ⟨rfl, rfl⟩ := ok_pair_inj hdec2
  have hcol : row.providerSessionCiphertext = some c := by
    unfold orError at hc
    split at hc
    · rename_i x hx
      rw [hx, Except.ok.inj hc]
    · simp at hc
  have htotal' : totalSize = row.session.totalSize.toNat := by
    unfold toU64 at htotal
    split_ifs at htotal
    exact (Except.ok.inj htotal).symm
  exact ⟨hcol, hsec, hbrowser, htotal', rfl, rfl⟩

variable {transition : Except AsterError (BrowserUploadTransition ς)} {nonce : ℕ}
variable {x : ProviderSessionSecret ς × BrowserSession ς × κ}

theorem finishAdvance_ok [DecidableEq ς] {requestId : String}
    (h : finishAdvance out call transition requestId nonce = .ok x) :
    ∃ t revision, validateTransition out t call.browser.confirmedOffset call.totalSize = .ok () ∧
      nextRevision call.browser t = .ok revision ∧
      x.2.1 = call.browser.applied t revision requestId ∧
      x.1 = { call.secret with browser := some x.2.1 } ∧ x.2.2 = out.encrypt nonce x.1 := by
  obtain ⟨t, _, h1⟩ := bind_ok h
  obtain ⟨_, hvalid, h2⟩ := bind_ok h1
  obtain ⟨revision, hrev, h3⟩ := bind_ok h2
  obtain ⟨next, hnext, h4⟩ := bind_ok h3
  cases h4
  refine ⟨t, revision, hvalid, hrev, rfl, rfl, ?_⟩
  unfold encryptProviderSession at hnext
  simp only at hnext
  split_ifs at hnext
  exact (Except.ok.inj hnext).symm

/-- With distinct nonces the column still holds what the call read only if nothing was persisted since
then. -/
theorem read_newest (sound : out.SoundCipher) {e d : Entry κ ς} {older : List (Entry κ ς)}
    {ciphertext : κ} (hnd : ((d :: older).map Entry.nonce).Nodup)
    (hread : ReadFrom out (d :: older) base ciphertext e)
    (hcol : out.encrypt d.nonce d.secret = ciphertext) :
    e = d ∧ base = (d :: older).length := by
  obtain ⟨⟨rest, hsuf, hlen⟩, hcipher⟩ := hread
  obtain ⟨hnonce, _⟩ := sound.injective _ _ _ _ (hcol.trans hcipher)
  rcases suffix_cons_iff.mp hsuf with heq | hsuf
  · cases heq
    exact ⟨rfl, hlen.symm⟩
  · -- an older entry has another nonce
    have hmem : e ∈ older := hsuf.subset mem_cons_self
    rw [map_cons, nodup_cons] at hnd
    exact absurd (List.mem_map.mpr ⟨e, hmem, hnonce.symm⟩) hnd.1

theorem called_of_begin (sound : out.SoundCipher) {row : Row κ} {driver : Except AsterError Unit}
    (hA : HasRead out session s (.loaded report row base))
    (hok : beginAdvance out row report now driver = .ok call) :
    Called out s.history ⟨call, base⟩ ∧ call.totalSize = session.totalSize.toNat := by
  obtain ⟨hcol, hdec, hbrowser, htotal, hreport, hreceipt⟩ := beginAdvance_ok hok
  obtain ⟨hsize, e, hread, hcol'⟩ := hA
  have hprev : call.previous = out.encrypt e.nonce e.secret := some.inj (hcol.symm.trans hcol')
  have hsecret : call.secret = e.secret := by
    rw [hprev, sound.decrypts] at hdec
    exact (Except.ok.inj hdec).symm
  refine ⟨⟨⟨e, ⟨hread.last, hprev⟩, hsecret, ?_⟩, ?_⟩, ?_⟩
  · rw [← hsecret]
    exact hbrowser
  · intro receipt hr
    have hr' : receiptFor call.browser.pending report = some receipt := hreceipt ▸ hr
    rw [← hreport] at hr'
    exact receiptFor_some hr'
  · rw [htotal, hsize]

variable [DecidableEq ς]

/-- A column that was replaced: the call had read the newest entry, and its value is the next one. -/
theorem Coordinated.exchange [DecidableEq κ] (h : Coordinated out session s)
    (sound : out.SoundCipher) {call : Call κ ς} (hA : HasRead out session s (.waiting call))
    {requestId : String} (hok : finishAdvance out call.toAdapterCall transition requestId nonce = .ok x)
    (hfresh : nonce ∉ s.history.map Entry.nonce)
    (hout : Browser.exchange s call nonce now x = (s', p')) :
    Coordinated out session s' ∧ s.history <:+ s'.history ∧ HasRead out session s' p' := by
  unfold Browser.exchange at hout
  rcases hcas : s.row.bind fun r => compareExchangeProviderSession r call.previous x.2.2 now with
    _ | row'
  · rw [hcas] at hout
    cases hout
    exact ⟨h, suffix_refl _, trivial⟩
  · rw [hcas] at hout
    cases hout
    obtain ⟨row, hrow, hcas'⟩ := bind_eq_some_iff.mp hcas
    unfold compareExchangeProviderSession at hcas'
    split_ifs at hcas' with hcond
    cases hcas'
    obtain ⟨hsize, d, older, hhist, hcol⟩ := h.column row hrow
    obtain ⟨⟨⟨e, hread, hsecret, hbrowser⟩, _⟩, htotal⟩ := hA
    have hnonces := h.nonces
    rw [hhist] at hread hnonces hfresh
    have hprev : out.encrypt d.nonce d.secret = call.previous := some.inj (hcol.symm.trans hcond.2.2.2)
    obtain ⟨rfl, hbase⟩ := read_newest sound hnonces hread hprev
    obtain ⟨t, revision, hvalid, hrev, hv, hx, hcipher⟩ := finishAdvance_ok hok
    rw [htotal] at hvalid
    refine ⟨⟨⟨?_, h.chained⟩, ?_, ?_, ?_⟩, suffix_cons _ _, trivial⟩
    · rw [hhist]
      intro older' holder
      cases holder
      refine ⟨call, x.2.1, t, rfl, hbase, hsecret, hbrowser, ?_, hvalid, ⟨revision, requestId, hv⟩, ?_⟩
      · rw [hx]
      · rw [hv]
        exact stepOf_applied hvalid hrev
    · show (nonce :: s.history.map Entry.nonce).Nodup
      rw [hhist]
      exact nodup_cons.mpr ⟨hfresh, hnonces⟩
    · intro row0 hrow0
      cases hrow0
      exact ⟨hsize, _, s.history, rfl, congrArg some hcipher⟩
    · intro c hc
      exact (h.calls c hc).suffix (suffix_cons _ _)

variable [DecidableEq κ]

theorem step_coordinated (sound : out.SoundCipher) (h : Coordinated out session s)
    (hA : HasRead out session s p) (hG : FreshNonce s p a)
    (hstep : step out a s p = some (s', p')) :
    Coordinated out session s' ∧ s.history <:+ s'.history ∧ HasRead out session s' p' := by
  cases p with
  | idle =>
    cases a with
    | load report =>
      rcases hrow : s.row with _ | row
      · simp only [step, hrow] at hstep
        cases hstep
        exact ⟨h, suffix_refl _, trivial⟩
      · simp only [step, hrow] at hstep
        cases hstep
        obtain ⟨hsize, e, older, hhist, hcol⟩ := h.column row hrow
        refine ⟨h, suffix_refl _, hsize, e, ⟨⟨older, ?_, ?_⟩, rfl⟩, hcol⟩
        all_goals rw [hhist]
    | elsewhere status expiresAt fileId updatedAt =>
      cases hstep
      refine ⟨⟨h.chained, h.nonces, ?_, h.calls⟩, suffix_refl _, trivial⟩
      intro row hrow
      obtain ⟨row0, hrow0, rfl⟩ := map_eq_some_iff.mp hrow
      exact h.column row0 hrow0
    | remove =>
      cases hstep
      refine ⟨⟨h.chained, h.nonces, ?_, h.calls⟩, suffix_refl _, trivial⟩
      intro row hrow
      simp at hrow
    | _ => simp [step] at hstep
  | loaded report row base =>
    cases a with
    | proceed now driver =>
      rcases hok : beginAdvance out row report now driver with e | call
      · simp only [step, hok] at hstep
        cases hstep
        exact ⟨h, suffix_refl _, trivial⟩
      · simp only [step, hok] at hstep
        cases hstep
        have hcalled := called_of_begin sound hA hok
        refine ⟨⟨h.chained, h.nonces, h.column, ?_⟩, suffix_refl _, hcalled⟩
        intro c hc
        rcases mem_cons.mp hc with rfl | hc
        · exact hcalled.1
        · exact h.calls c hc
    | _ => simp [step] at hstep
  | waiting call =>
    cases a with
    | answer transition requestId nonce now =>
      rcases hok : finishAdvance out call.toAdapterCall transition requestId nonce with e | x
      · simp only [step, hok] at hstep
        cases hstep
        exact ⟨h, suffix_refl _, trivial⟩
      · simp only [step, hok] at hstep
        exact h.exchange sound hA hok (of_decide_eq_true hG) (some.inj hstep)
    | _ => simp [step] at hstep
  | returned result =>
    cases a with
    | again =>
      cases hstep
      exact ⟨h, suffix_refl _, trivial⟩
    | _ => simp [step] at hstep

theorem reach_coordinated (sound : out.SoundCipher) {secret : ProviderSessionSecret ς} {c : Config (State κ ς) (Pc κ ς)}
    (hrun : Reach (system out) FreshNonce (start out session secret nonce) c) :
    Holds (Coordinated out session) (HasRead out session) (fun _ _ => True) c ∧
      [⟨secret, nonce, none⟩] <:+ c.shared.history := by
  induction hrun with
  | refl =>
    refine ⟨⟨⟨⟨?_, trivial⟩, nodup_singleton _, ?_, ?_⟩, fun _ => trivial, fun _ _ _ => trivial⟩, suffix_refl _⟩
    · intro older holder
      simp at holder
    · intro row hrow
      cases hrow
      exact ⟨rfl, _, [], rfl, rfl⟩
    · intro call hcall
      exact absurd hcall not_mem_nil
  | @step c c' i a _ hg hf ih =>
    obtain ⟨⟨hI, hA, _⟩, hfirst⟩ := ih
    obtain ⟨s', p', hstep, rfl⟩ := fire_eq_some hf
    obtain ⟨hI', hsuf, hA'⟩ := step_coordinated sound hI (hA i) hg hstep
    refine ⟨⟨hI', ?_, fun _ _ _ => trivial⟩, hfirst.trans hsuf⟩
    intro j
    rcases eq_or_ne j i with rfl | hj
    · simpa using hA'
    · simpa [update_of_ne hj] using (hA j).suffix hsuf

end

/-! ### The values along the chain -/

section

variable {out} [DecidableEq ς] {total : ℕ} {history : List (Entry κ ς)}

/-- The entry's value. -/
def Entry.Shows (out : Outside κ ς) (e : Entry κ ς) (v : BrowserSession ς) : Prop := e.secret.session out = .ok v

/-- How a value stands to a later one of the same chain. -/
structure Before (total : ℕ) (v v' : BrowserSession ς) : Prop where
  offset : v.confirmedOffset ≤ v'.confirmedOffset
  revision : v.progressRevision ≤ v'.progressRevision
  completed : v.providerCompleted = true → v'.confirmedOffset = total

/-- A value that `validate_transition` would accept the progress of. -/
structure Consistent (total : ℕ) (v : BrowserSession ς) : Prop where
  bounded : v.confirmedOffset ≤ total
  completed : v.providerCompleted = true → v.confirmedOffset = total ∧ v.pending = none

omit [DecidableEq ς] in
variable {v : BrowserSession ς}

theorem shows_of_browser {e : Entry κ ς} {w : BrowserSession ς} (h : e.secret.browser = some v)
    (hw : e.Shows out w) : w = v := by
  unfold Entry.Shows ProviderSessionSecret.session at hw
  rw [h] at hw
  exact (Except.ok.inj hw).symm

theorem StepOf.consistent {v' : BrowserSession ς} (h : StepOf total v v') : Consistent total v' := by
  refine ⟨h.bounded, fun hdone => ⟨h.completed hdone, ?_⟩⟩
  have hpend := h.pending
  rw [hdone] at hpend
  exact isNone_iff_eq_none.mp hpend.symm

theorem StepOf.before {v' : BrowserSession ς} (h : StepOf total v v') (hv : Consistent total v) :
    Before total v v' := by
  refine ⟨h.offset, ?_, ?_⟩
  · rw [h.revision]
    exact Nat.le_add_right _ _
  · intro hdone
    have hle := h.offset
    have hmax := h.bounded
    have hfull := (hv.completed hdone).1
    omega

omit [DecidableEq ς] in
theorem Before.trans {u w : BrowserSession ς} (h1 : Before total u v) (h2 : Before total v w)
    (hw : w.confirmedOffset ≤ total) : Before total u w := by
  refine ⟨h1.offset.trans h2.offset, h1.revision.trans h2.revision, ?_⟩
  intro hdone
  have hfull := h1.completed hdone
  have hle := h2.offset
  omega

theorem chained_values (h : Chained out total history)
    (hfirst : ∀ e, history.getLast? = some e → ∀ v, e.Shows out v → Consistent total v) :
    (∀ e ∈ history, ∀ v, e.Shows out v → Consistent total v) ∧ history.Pairwise fun newer older =>
        ∀ v v', older.Shows out v → newer.Shows out v' → Before total v v' := by
  induction history with
  | nil => exact ⟨by simp, List.Pairwise.nil⟩
  | cons newer rest ih =>
    obtain ⟨hnew, hrest⟩ := h
    rcases rest with _ | ⟨older, l⟩
    · refine ⟨?_, pairwise_singleton _ _⟩
      intro e he
      obtain rfl := mem_singleton.mp he
      exact hfirst e rfl
    · have hlast : ∀ e, (older :: l).getLast? = some e → ∀ v, e.Shows out v → Consistent total v := by
        intro e he
        refine hfirst e ?_
        exact he
      obtain ⟨hall, hpair⟩ := ih hrest hlast
      obtain ⟨call, v1, t, _, _, _, hshow, hbrowser, _, _, hstep⟩ := hnew older rfl
      have hnewest : ∀ v', newer.Shows out v' → v' = v1 := fun v' hv' => shows_of_browser hbrowser hv'
      have hbefore := hstep.before (hall older mem_cons_self _ hshow)
      refine ⟨?_, pairwise_cons.mpr ⟨?_, hpair⟩⟩
      · intro e he v hv
        rcases mem_cons.mp he with rfl | he
        · rw [hnewest v hv]
          exact hstep.consistent
        · exact hall e he v hv
      · intro e he v v' hv hv'
        rw [hnewest v' hv']
        rcases mem_cons.mp he with rfl | he
        · obtain rfl : v = call.browser := Except.ok.inj (hv.symm.trans hshow)
          exact hbefore
        · have holder := (pairwise_cons.mp hpair).1 e he v _ hv hshow
          exact holder.trans hbefore hstep.bounded

omit [DecidableEq ς] in
theorem planned_consistent {session : UploadSession} {secret : ProviderSessionSecret ς} {nonce : ℕ}
    {origin : Option (Call κ ς)} (hplan : Planned out session secret)
    (hv : (Entry.mk secret nonce origin).Shows out v) : Consistent session.totalSize.toNat v := by
  obtain ⟨protocol, rfl⟩ : ∃ protocol, v = BrowserSession.new out protocol := by
    unfold Entry.Shows ProviderSessionSecret.session at hv
    rcases hplan.browser with hnone | ⟨protocol, hsome⟩
    · rw [show (Entry.mk secret nonce origin).secret.browser = none from hnone] at hv
      rcases hleg : legacyProtocol secret.provider with e | protocol
      · rw [show legacyProtocol (Entry.mk secret nonce origin).secret.provider = .error e from hleg] at hv
        simp [Except.map] at hv
      · rw [show legacyProtocol (Entry.mk secret nonce origin).secret.provider = .ok protocol from hleg] at hv
        exact ⟨protocol, (Except.ok.inj hv).symm⟩
    · rw [show (Entry.mk secret nonce origin).secret.browser = _ from hsome] at hv
      exact ⟨protocol, (Except.ok.inj hv).symm⟩
  exact ⟨Nat.zero_le _, fun hdone => Bool.noConfusion hdone⟩

variable [DecidableEq κ]

/-- **Browser-coordinated uploads advance along one chain.** However the calls interleave, and whatever
the adapter answers: the column holds the newest entry of a history in which every entry was written
by one call that started from the entry right before it (`Chained`, with `StepOf` for the two
values); any two values are ordered (`Before`), every value is `Consistent`; and an adapter call only
gets an observation together with the pending request that the report named, in the value that the
call had read. -/
theorem browser_values_chain {session : UploadSession} {secret : ProviderSessionSecret ς} {nonce : ℕ}
    {c : Config (State κ ς) (Pc κ ς)} (sound : out.SoundCipher) (hplan : Planned out session secret)
    (hrun : Reach (system out) FreshNonce (start out session secret nonce) c) :
    (∀ row, c.shared.row = some row → ∃ e older, c.shared.history = e :: older ∧
      row.providerSessionCiphertext = some (out.encrypt e.nonce e.secret)) ∧
    Chained out session.totalSize.toNat c.shared.history ∧
    (c.shared.history.Pairwise fun newer older => ∀ v v', older.Shows out v → newer.Shows out v' →
      Before session.totalSize.toNat v v') ∧
    (∀ e ∈ c.shared.history, ∀ v, e.Shows out v → Consistent session.totalSize.toNat v) ∧
    ∀ call ∈ c.shared.calls, Called out c.shared.history call := by
  obtain ⟨⟨hI, _, _⟩, hfirst⟩ := reach_coordinated sound hrun
  have hlast : ∀ e, c.shared.history.getLast? = some e → ∀ v, e.Shows out v → Consistent session.totalSize.toNat v := by
    intro e he v hv
    obtain ⟨l, hl⟩ := hfirst
    rw [← hl, getLast?_append] at he
    obtain rfl : (⟨secret, nonce, none⟩ : Entry κ ς) = e := some.inj he
    exact planned_consistent hplan hv
  obtain ⟨hall, hpair⟩ := chained_values hI.chained hlast
  refine ⟨?_, hI.chained, hpair, hall, hI.calls⟩
  intro row hrow
  exact (hI.column row hrow).2

end

/-! ### Two tabs

The upload has eight bytes. Both tabs start from the new value; the second tab's exchange fails, it
loads again and reports the answer to the request that the first tab was told to send. -/

/-- Ciphertexts that show their nonce and their plaintext. -/
def sampleOutside : Outside (ℕ × ProviderSessionSecret ℕ) ℕ where
  null := 0
  encodedLength := fun _ => some 2
  parseUrl := fun _ => some ⟨"https", some "upload.invalid", "", none, none⟩
  supportsProtocol := fun _ => true
  encrypt := Prod.mk
  decrypt := fun c => .ok c.2
  ciphertextLength := fun _ => 100

theorem sampleOutside_sound : sampleOutside.SoundCipher := ⟨fun _ _ => rfl, fun _ _ _ _ h => Prod.mk.inj h⟩

def sampleSession : UploadSession :=
  { id := "u", totalSize := 8, chunkSize := 4, totalChunks := 2, status := .uploading
    sessionKind := .providerDirectResumable, objectTempKey := some "tmp/u", expiresAt := 100 }

def sampleSecret : ProviderSessionSecret ℕ :=
  { provider := "google_drive", uploadUrl := "https://upload.invalid", browser := none }

theorem sample_planned : Planned sampleOutside sampleSession sampleSecret := ⟨by decide, .inl rfl⟩

def patchRequest : BrowserUploadRequest :=
  { url := "https://upload.invalid/part", method := .patch, headers := [], authorization := none
    completion := none, body := some ⟨4, 8⟩, responseHeaders := [] }

def halfway : BrowserUploadTransition ℕ :=
  { privateState := 1, confirmedOffset := 4, providerCompleted := false, request := some patchRequest }

def finished : BrowserUploadTransition ℕ :=
  { privateState := 2, confirmedOffset := 8, providerCompleted := true, request := none }

def sampleReport : BrowserUploadReport := { requestId := some "r1", observation := some ⟨200, [], "", false⟩ }

def twoTabs : List (ℕ × Act ℕ) :=
  [(0, .load ⟨none, none⟩), (1, .load ⟨none, none⟩), (0, .proceed 1 (.ok ())), (1, .proceed 1 (.ok ())),
    (0, .answer (.ok halfway) "r1" 1 2), (1, .answer (.ok halfway) "r2" 2 2), (1, .again),
    (1, .load sampleReport), (1, .proceed 3 (.ok ())), (1, .answer (.ok finished) "r3" 3 4)]

theorem twoTabs_run : ((system sampleOutside).run FreshNonce
    (start sampleOutside sampleSession sampleSecret 0) twoTabs).isSome := by
  rfl

def afterTabs : Config (State (ℕ × ProviderSessionSecret ℕ) ℕ) (Pc (ℕ × ProviderSessionSecret ℕ) ℕ) :=
  ((system sampleOutside).run FreshNonce (start sampleOutside sampleSession sampleSecret 0) twoTabs).get twoTabs_run

/-- Three values, and one adapter call with a receipt. -/
theorem browser_values_chain_twoTabs :
    (afterTabs.shared.history.filterMap fun e => e.secret.browser).map BrowserSession.confirmedOffset = [8, 4] ∧
      afterTabs.shared.calls.map (fun c => (c.base, c.receipt.map BrowserUploadReceipt.request)) =
        [(2, some patchRequest), (1, none), (1, none)] ∧
      Chained sampleOutside 8 afterTabs.shared.history ∧
      ∀ call ∈ afterTabs.shared.calls, Called sampleOutside afterTabs.shared.history call := by
  have hreach : Reach (system sampleOutside) FreshNonce
      (start sampleOutside sampleSession sampleSecret 0) afterTabs := reach_run_get twoTabs_run
  obtain ⟨_, hchain, _, _, hcalls⟩ := browser_values_chain sampleOutside_sound sample_planned hreach
  exact ⟨rfl, rfl, hchain, hcalls⟩

end AsterDrive.Upload.Browser
