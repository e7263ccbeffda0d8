import AsterDrive.Lib.Interleave
import AsterDrive.Upload.Session

/-!
# RelayMultipart — chunk PUTs of relay multipart sessions

The relay multipart branch of `upload_chunk_impl` and `upload_chunk_payload_impl`, one database or
provider call at a time: load and check the session, `try_claim_part`, the provider upload, the
transaction that records the part and bumps `received_count`, the release of the claim after an
error, the final read of the session. Any call may fail, and a worker may die between two calls.

A PUT that finds its part number taken does not look at the row it lost to and answers `Ok`.
`ack_without_part` is the run in which that row was an unfinished claim that its owner then gave
up. `acked_parts_durable` is the positive result: as long as no PUT meets an unfinished claim, the
counter equals the number of recorded parts and every acknowledged chunk has its part row.
-/

namespace AsterDrive.Upload.RelayMultipart

open AsterDrive.Interleave List Option Parts

/-! ### The model -/

/-- One chunk PUT; `streamed` selects `upload_chunk_payload_impl`, whose body is read while it is
relayed. -/
structure PutRequest where
  chunkNumber : ℤ
  dataLen : ℤ
  streamed : Bool

structure ChunkUploadResponse where
  receivedCount : ℤ
  totalChunks : ℤ

/-- What a provider answers for a stored part; its etag is never empty. -/
abbrev Etag := { etag : String // etag ≠ "" }

/-- Where a worker stands: the call it makes next. -/
inductive Pc
  | idle
  | claim (req : PutRequest) (expectedSize : ℤ)
  | upload (req : PutRequest) (size : ℤ)
  | record (req : PutRequest) (size : ℤ) (etag : Etag)
  | release (req : PutRequest) (error : AsterError)
  | drain (req : PutRequest)
  | respond (req : PutRequest)
  | done (result : Except AsterError ChunkUploadResponse)

/-- The rows of the session, and the chunks for which some PUT has returned `Ok` so far. -/
structure State where
  session : Option UploadSession
  parts : Parts
  acked : List ℤ := []

/-- What is chosen for a worker: its request, how its next call ends, its death; and, for a worker
without a request, what completion, cancellation and cleanup do to the session meanwhile. -/
inductive Act
  | put (req : PutRequest) (now : ℕ)
  | succeed (now : ℕ)
  | fail (message : String)
  | uploaded (etag : Etag)
  | rejected (kind : StorageErrorKind) (message : String)
  | beginFails (message : String)
  | crash
  | setStatus (status : UploadSessionStatus)
  | deleteSession

def relayMultipartFields (u : UploadSession) : Except AsterError (String × String) :=
  match u.objectTempKey, u.objectMultipartId with
  | none, _ => .error (.uploadAssemblyFailed
      { message := "relay multipart session is missing object_temp_key"
        apiCode := some .uploadSessionCorrupted })
  | some _, none => .error (.uploadAssemblyFailed
      { message := "relay multipart session is missing object_multipart_id"
        apiCode := some .uploadSessionCorrupted })
  | some tempKey, some multipartId => .ok (tempKey, multipartId)

/-- The checks that precede the claim. -/
def checkPut (u : UploadSession) (req : PutRequest) (now : ℕ) : Except AsterError ℤ := do
  let expectedSize ← checkChunkRequest u req.chunkNumber now
  let _ ← checkBodyLength req.streamed req.chunkNumber expectedSize req.dataLen
  let _ ← relayMultipartFields u
  return expectedSize

def startPut (session : Option UploadSession) (req : PutRequest) (now : ℕ) : Pc :=
  match session with
  | none => .done (.error (.uploadSessionNotFound { message := "session" }))
  | some u =>
    match checkPut u req now with
    | .error e => .done (.error e)
    | .ok expectedSize => .claim req expectedSize

def dbError (message : String) : AsterError := .databaseOperation { message }

/-- One step of one worker. -/
def step (a : Act) (s : State) : Pc → Option (State × Pc)
  | .idle =>
    match a with
    | .put req now => some (s, startPut s.session req now)
    | .setStatus status => some ({ s with session := s.session.map ({ · with status }) }, .idle)
    -- the part rows go with the session row (`on_delete = "Cascade"`)
    | .deleteSession => some ({ s with session := none, parts := Table.empty }, .idle)
    | _ => none
  | .claim req expectedSize =>
    match a with
    | .succeed now =>
      match s.session with
      | none => some (s, .done (.error (dbError "FOREIGN KEY constraint failed")))
      | some _ =>
        match s.parts.tryClaimPart (req.chunkNumber + 1) now with
        | some parts => some ({ s with parts }, .upload req expectedSize)
        | none => some (s, if req.streamed then .drain req else .respond req)
    | .fail message => some (s, .done (.error (dbError message)))
    | .crash => some (s, .idle)
    | _ => none
  | .upload req size =>
    match a with
    | .uploaded etag => some (s, .record req size etag)
    | .rejected kind message => some (s, .release req (.ofStorage kind message))
    -- `get_policy_or_err` and `get_multipart_driver` leave with `?`, the claim stays
    | .fail message => some (s, .done (.error (.storagePolicyNotFound { message })))
    | .crash => some (s, .idle)
    | _ => none
  | .record req size etag =>
    match a with
    | .succeed now =>
      match s.session with
      | none => some (s, .release req (.uploadSessionNotFound { message := "session" }))
      | some u =>
        match u.incrementReceivedCountIfUploading now with
        | none => some (s, .release req (uploadSessionChunkUnavailableError u))
        | some u' =>
          some ({ s with
            session := some u'
            parts := s.parts.upsertPart (req.chunkNumber + 1) etag.1 size now }, .respond req)
    | .fail message => some (s, .release req (dbError message))
    -- `transaction::begin` leaves with `?`, the claim stays
    | .beginFails message => some (s, .done (.error (dbError message)))
    | .crash => some (s, .idle)
    | _ => none
  | .release req error =>
    match a with
    | .succeed _ =>
      some ({ s with parts := s.parts.deleteByUploadAndPart (req.chunkNumber + 1) }, .done (.error error))
    | .fail _ => some (s, .done (.error error))
    | .crash => some (s, .idle)
    | _ => none
  | .drain req =>
    match a with
    | .succeed _ => some (s, .respond req)
    | .fail message => some (s, .done (.error (.chunkUploadFailed { message })))
    | .crash => some (s, .idle)
    | _ => none
  | .respond req =>
    match a with
    | .succeed _ =>
      match s.session with
      | none => some (s, .done (.error (.uploadSessionNotFound { message := "session" })))
      | some u =>
        some ({ s with acked := req.chunkNumber :: s.acked },
          .done (.ok { receivedCount := u.receivedCount, totalChunks := u.totalChunks }))
    | .fail message => some (s, .done (.error (dbError message)))
    | .crash => some (s, .idle)
    | _ => none
  | .done _ => none

def relay : System State Pc Act := ⟨step⟩

/-- A relay multipart session as `init` leaves it. -/
structure RelaySession where
  row : UploadSession
  kind : row.sessionKind.isRelayMultipart = true
  fresh : row.receivedCount = 0

/-- The fresh session, and no worker busy. -/
def start (u : RelaySession) : Config State Pc where
  shared := { session := some u.row, parts := Table.empty }
  proc _ := .idle

/-- No PUT is in flight. -/
def Quiescent (c : Config State Pc) : Prop := ∀ i, c.proc i = .idle ∨ ∃ result, c.proc i = .done result

/-- The part row of this part number is recorded: present, with a non-empty etag. -/
def Recorded (t : Parts) (partNumber : ℤ) : Prop := ∃ r, t.get partNumber = some r ∧ r.etag ≠ ""

/-- **The acknowledgement contract**: the counter counts the recorded parts, and a chunk that some
PUT has acknowledged is recorded. -/
structure AcksDurable (s : State) : Prop where
  count : ∀ u, s.session = some u → u.receivedCount = s.parts.finalizedCount
  acked : ∀ u, s.session = some u → u.status = .uploading → ∀ n ∈ s.acked, Recorded s.parts (n + 1)

/-- The part number that the worker is about to claim. -/
def Pc.claiming : Pc → Option ℤ
  | .claim req _ => some (req.chunkNumber + 1)
  | _ => none

/-- The part number is taken by a claim that is not finished. -/
def openClaim (t : Parts) (partNumber : ℤ) : Bool := (t.get partNumber).any fun r => r.etag = ""

/-- No PUT reaches `try_claim_part` while an unfinished claim holds its part number. -/
def MeetsNoOpenClaim (s : State) (p : Pc) (_ : Act) : Prop := p.claiming.any (openClaim s.parts) = false

instance (s : State) (p : Pc) (a : Act) : Decidable (MeetsNoOpenClaim s p a) := inferInstanceAs (Decidable (_ = false))

/-! ### What a step can do -/

/-- The part number whose claim the worker holds. -/
def Pc.owned : Pc → Option ℤ
  | .upload req _ | .record req _ _ | .release req _ => some (req.chunkNumber + 1)
  | _ => none

/-- The part number that the worker is about to vouch for with its answer. -/
def Pc.vouched : Pc → Option ℤ
  | .drain req | .respond req => some (req.chunkNumber + 1)
  | _ => none

/-- The steps, as far as the rows and the two roles of a worker are concerned. -/
inductive Moves (s : State) (p p' : Pc) : State → Prop
  | quiet (ho : p'.owned = none) (hv : p'.vouched = none) : Moves s p p' s
  | keep (ho : p'.owned = p.owned) (hv : p'.vouched = p.vouched) : Moves s p p' s
  | claimed (n : ℤ) (now : ℕ) (parts : Parts) (ho : p'.owned = some n) (hv : p'.vouched = none)
      (hins : s.parts.tryClaimPart n now = some parts) (hs : s.session.isSome) :
      Moves s p p' { s with parts }
  | conflicted (n : ℤ) (now : ℕ) (hc : p.claiming = some n) (ho : p'.owned = none)
      (hv : p'.vouched = some n) (hins : s.parts.tryClaimPart n now = none) : Moves s p p' s
  | recorded (n : ℤ) (u u' : UploadSession) (now : ℕ) (size : ℤ) (etag : Etag)
      (hp : p.owned = some n) (ho : p'.owned = none) (hv : p'.vouched = some n)
      (hu : s.session = some u) (hinc : u.incrementReceivedCountIfUploading now = some u') :
      Moves s p p' { s with session := some u', parts := s.parts.upsertPart n etag.1 size now }
  | released (n : ℤ) (hp : p.owned = some n) (ho : p'.owned = none) (hv : p'.vouched = none) :
      Moves s p p' { s with parts := s.parts.deleteByUploadAndPart n }
  | answered (n : ℤ) (hp : p.vouched = some (n + 1)) (ho : p'.owned = none)
      (hv : p'.vouched = none) : Moves s p p' { s with acked := n :: s.acked }
  | status (status : UploadSessionStatus) (ho : p'.owned = none) (hv : p'.vouched = none) :
      Moves s p p' { s with session := s.session.map ({ · with status }) }
  | deleted (ho : p'.owned = none) (hv : p'.vouched = none) :
      Moves s p p' { s with session := none, parts := Table.empty }

theorem startPut_roles (session : Option UploadSession) (req : PutRequest) (now : ℕ) :
    (startPut session req now).owned = none ∧ (startPut session req now).vouched = none := by
  unfold startPut
  split
  · exact ⟨rfl, rfl⟩
  · split
    all_goals exact ⟨rfl, rfl⟩

variable {s s' : State} {p p' : Pc}

theorem step_moves {a : Act} (h : step a s p = some (s', p')) : Moves s p p' s' := by
  cases p with
  | idle =>
    cases a <;> simp only [step, some.injEq, Prod.mk.injEq, reduceCtorEq] at h
    · obtain ⟨rfl, rfl⟩ := h
      exact .quiet (startPut_roles ..).1 (startPut_roles ..).2
    · obtain ⟨rfl, rfl⟩ := h
      exact .status _ rfl rfl
    · obtain ⟨rfl, rfl⟩ := h
      exact .deleted rfl rfl
  | claim req size =>
    cases a <;> simp only [step, some.injEq, Prod.mk.injEq, reduceCtorEq] at h
    · split at h
      · cases h
        exact .quiet rfl rfl
      · rename_i hu
        split at h
        · rename_i hins
          cases h
          exact .claimed _ _ _ rfl rfl hins (by simp [hu])
        · rename_i hins
          cases h
          refine .conflicted _ _ rfl ?_ ?_ hins
          all_goals split_ifs <;> rfl
    all_goals
      obtain ⟨rfl, rfl⟩ := h
      exact .quiet rfl rfl
  | upload req size =>
    cases a <;> simp only [step, some.injEq, Prod.mk.injEq, reduceCtorEq] at h <;>
      obtain ⟨rfl, rfl⟩ := h
    · exact .quiet rfl rfl
    · exact .keep rfl rfl
    · exact .keep rfl rfl
    · exact .quiet rfl rfl
  | record req size etag =>
    cases a <;> simp only [step, some.injEq, Prod.mk.injEq, reduceCtorEq] at h
    · split at h
      · cases h
        exact .keep rfl rfl
      · rename_i hu
        split at h
        · cases h
          exact .keep rfl rfl
        · rename_i hinc
          cases h
          exact .recorded _ _ _ _ _ _ rfl rfl rfl hu hinc
    · obtain ⟨rfl, rfl⟩ := h
      exact .keep rfl rfl
    all_goals
      obtain ⟨rfl, rfl⟩ := h
      exact .quiet rfl rfl
  | release req error =>
    cases a <;> simp only [step, some.injEq, Prod.mk.injEq, reduceCtorEq] at h <;>
      obtain ⟨rfl, rfl⟩ := h
    · exact .released _ rfl rfl rfl
    all_goals exact .quiet rfl rfl
  | drain req =>
    cases a <;> simp only [step, some.injEq, Prod.mk.injEq, reduceCtorEq] at h <;>
      obtain ⟨rfl, rfl⟩ := h
    · exact .keep rfl rfl
    all_goals exact .quiet rfl rfl
  | respond req =>
    cases a <;> simp only [step, some.injEq, Prod.mk.injEq, reduceCtorEq] at h
    · split at h
      · cases h
        exact .quiet rfl rfl
      · cases h
        exact .answered _ rfl rfl rfl
    all_goals
      obtain ⟨rfl, rfl⟩ := h
      exact .quiet rfl rfl
  | done r => simp [step] at h

/-! ### The invariant -/

/-- The counter counts the recorded parts and no acknowledged part is missing; both only as long
as the session row exists. -/
structure Inv (s : State) : Prop where
  count : ∀ u, s.session = some u → u.receivedCount = s.parts.finalizedCount
  acked : s.session.isSome → ∀ n ∈ s.acked, Recorded s.parts (n + 1)

/-- An owner's row is an unfinished claim, a voucher's row is recorded. -/
structure Role (s : State) (p : Pc) : Prop where
  owned : s.session.isSome → ∀ n, p.owned = some n → openClaim s.parts n = true
  vouched : s.session.isSome → ∀ n, p.vouched = some n → Recorded s.parts n

/-- Two workers do not hold the same claim. -/
def Apart (p q : Pc) : Prop := ∀ n, p.owned = some n → q.owned ≠ some n

variable {t : Parts} {n : ℤ}

theorem openClaim_iff : openClaim t n = true ↔ ∃ r, t.get n = some r ∧ r.etag = "" := by
  unfold openClaim
  cases t.get n with
  | none | some r => simp

theorem not_recorded_of_openClaim (h : openClaim t n = true) : ¬ Recorded t n := by
  rintro ⟨r, hr, hne⟩
  obtain ⟨r', hr', heq⟩ := (openClaim_iff).mp h
  rw [hr] at hr'
  exact hne (some.inj hr' ▸ heq)

theorem Recorded.of_get_eq {t' : Parts} (h : Recorded t n) (he : t'.get n = t.get n) : Recorded t' n := by
  obtain ⟨r, hr, hne⟩ := h
  exact ⟨r, he.trans hr, hne⟩

theorem openClaim_congr {t' : Parts} (he : t'.get n = t.get n) : openClaim t' n = openClaim t n := by
  unfold openClaim
  rw [he]

theorem Moves.recorded_stable (h : Moves s p p' s')
    (hp : Role s p) (hs' : s'.session.isSome) (hn : Recorded s.parts n) : Recorded s'.parts n := by
  cases h with
  | quiet | keep | conflicted | answered | status => exact hn
  | claimed m _ _ _ _ hins =>
    refine hn.of_get_eq ?_
    rw [get_tryClaimPart hins, if_neg]
    rintro rfl
    obtain ⟨r, hr, -⟩ := hn
    simp [tryClaimPart_eq_none.mpr ⟨r, hr⟩] at hins
  | recorded m _ _ _ _ etag hm _ _ hu =>
    obtain ⟨r, hr, -⟩ := (openClaim_iff).mp (hp.owned (by simp [hu]) m hm)
    by_cases hmn : m = n
    · refine ⟨_, (get_upsertPart hr n).trans (if_pos hmn), etag.2⟩
    · exact hn.of_get_eq ((get_upsertPart hr n).trans (if_neg hmn))
  | released m hm =>
    refine hn.of_get_eq ?_
    rw [get_deleteByUploadAndPart, if_neg]
    rintro rfl
    exact not_recorded_of_openClaim (hp.owned hs' m hm) hn
  | deleted => simp at hs'

theorem session_back (h : Moves s p p' s') (hs' : s'.session.isSome) :
    s.session.isSome := by
  cases h with
  | recorded _ _ _ _ _ _ _ _ _ hu => simp [hu]
  | status => simpa using hs'
  | deleted => simp at hs'
  | quiet | keep | conflicted | claimed | released | answered => exact hs'

theorem Moves.inv (h : Moves s p p' s') (hI : Inv s) (hp : Role s p) : Inv s' := by
  refine ⟨?_, fun hs' n hn => ?_⟩
  · intro u hu
    cases h with
    | quiet | keep | conflicted | answered => exact hI.count u hu
    | claimed _ _ _ _ _ hins =>
      rw [finalizedCount_tryClaimPart hins]
      exact hI.count u hu
    | recorded n v v' _ _ etag hn _ _ hv hinc =>
      obtain ⟨r, hr, hr0⟩ := (openClaim_iff).mp (hp.owned (by simp [hv]) n hn)
      obtain rfl : v' = u := some.inj hu
      have hv' : v'.receivedCount = v.receivedCount + 1 := by
        unfold UploadSession.incrementReceivedCountIfUploading at hinc
        split_ifs at hinc
        cases hinc
        rfl
      rw [finalizedCount_upsertPart hr hr0 etag.2, hv', hI.count v hv]
    | released n hn =>
      obtain ⟨r, hr, hr0⟩ := (openClaim_iff).mp (hp.owned (by simpa using congrArg Option.isSome hu) n hn)
      rw [finalizedCount_deleteByUploadAndPart hr hr0]
      exact hI.count u hu
    | status =>
      obtain ⟨v, hv, rfl⟩ := map_eq_some_iff.mp hu
      exact hI.count v hv
    | deleted => simp at hu
  · have hs := session_back h hs'
    have hold : n ∈ s.acked ∨ p.vouched = some (n + 1) := by
      cases h with
      | answered _ hv =>
        rcases mem_cons.mp hn with rfl | hn
        · exact .inr hv
        · exact .inl hn
      | quiet | keep | conflicted | claimed | recorded | released | status | deleted =>
        exact .inl hn
    rcases hold with hn | hv
    · exact h.recorded_stable hp hs' (hI.acked hs n hn)
    · exact h.recorded_stable hp hs' (hp.vouched hs _ hv)

/-- The worker that moves keeps its role; here the guard enters, in the conflict case. -/
theorem Moves.role_self {a : Act} (h : Moves s p p' s') (hp : Role s p) (hg : MeetsNoOpenClaim s p a) : Role s' p' := by
  cases h with
  | quiet ho hv | released _ _ ho hv | answered _ _ ho hv | status _ ho hv | deleted ho hv =>
    exact ⟨fun _ n hn => by simp [ho] at hn, fun _ n hn => by simp [hv] at hn⟩
  | keep ho hv => exact ⟨fun hs n hn => hp.owned hs n (ho ▸ hn), fun hs n hn => hp.vouched hs n (hv ▸ hn)⟩
  | claimed m _ _ ho hv hins =>
    refine ⟨fun _ n hn => ?_, fun _ n hn => by simp [hv] at hn⟩
    obtain rfl : m = n := some.inj (ho.symm.trans hn)
    exact (openClaim_iff).mpr ⟨_, (get_tryClaimPart hins m).trans (if_pos rfl), rfl⟩
  | conflicted m _ hc ho hv hins =>
    refine ⟨fun _ n hn => by simp [ho] at hn, fun _ n hn => ?_⟩
    obtain rfl : m = n := some.inj (hv.symm.trans hn)
    obtain ⟨r, hr⟩ := tryClaimPart_eq_none.mp hins
    refine ⟨r, hr, fun hr0 => ?_⟩
    have hopen : openClaim s.parts m = true := (openClaim_iff).mpr ⟨r, hr, hr0⟩
    simp [MeetsNoOpenClaim, hc, hopen] at hg
  | recorded m u _ _ _ etag hm ho hv hu _ =>
    refine ⟨fun _ n hn => by simp [ho] at hn, fun _ n hn => ?_⟩
    obtain rfl : m = n := some.inj (hv.symm.trans hn)
    obtain ⟨r, hr, -⟩ := (openClaim_iff).mp (hp.owned (by simp [hu]) m hm)
    exact ⟨_, (get_upsertPart hr m).trans (if_pos rfl), etag.2⟩

theorem Moves.openClaim_stable (h : Moves s p p' s') (hp : Role s p) (hs' : s'.session.isSome) (hne : p.owned ≠ some n)
    (hn : openClaim s.parts n = true) : openClaim s'.parts n = true := by
  cases h with
  | quiet | keep | conflicted | answered | status => exact hn
  | claimed m _ _ _ _ hins =>
    rw [openClaim_congr, hn]
    rw [get_tryClaimPart hins, if_neg]
    rintro rfl
    obtain ⟨r, hr, -⟩ := (openClaim_iff).mp hn
    simp [tryClaimPart_eq_none.mpr ⟨r, hr⟩] at hins
  | recorded m u _ _ _ _ hm _ _ hu =>
    obtain ⟨r, hr, -⟩ := (openClaim_iff).mp (hp.owned (by simp [hu]) m hm)
    rw [openClaim_congr, hn]
    rw [get_upsertPart hr, if_neg]
    rintro rfl
    exact hne hm
  | released m hm =>
    rw [openClaim_congr, hn]
    rw [get_deleteByUploadAndPart, if_neg]
    rintro rfl
    exact hne hm
  | deleted => simp at hs'

variable {q : Pc}

theorem Moves.role_other (h : Moves s p p' s') (hp : Role s p) (hq : Role s q) (hqp : Apart q p) : Role s' q := by
  refine ⟨fun hs' n hn => ?_, fun hs' n hn => ?_⟩
  · exact h.openClaim_stable hp hs' (hqp n hn) (hq.owned (session_back h hs') n hn)
  · exact h.recorded_stable hp hs' (hq.vouched (session_back h hs') n hn)

/-- A fresh claim is nobody else's: a claim that somebody holds would have been in the way. -/
theorem Moves.apart (h : Moves s p p' s') (hq : Role s q) (hpq : Apart p q) : Apart p' q := by
  intro n hn hqn
  cases h with
  | quiet ho _ | conflicted _ _ _ ho _ _ | recorded _ _ _ _ _ _ _ ho _ _ _ | released _ _ ho _
  | answered _ _ ho _ | status _ ho _ | deleted ho _ => simp [ho] at hn
  | keep ho _ => exact hpq n (ho ▸ hn) hqn
  | claimed m _ _ ho _ hins hs =>
    obtain rfl : m = n := some.inj (ho.symm.trans hn)
    obtain ⟨r, hr, -⟩ := (openClaim_iff).mp (hq.owned hs m hqn)
    simp [tryClaimPart_eq_none.mpr ⟨r, hr⟩] at hins

theorem Apart.symm (h : Apart p q) : Apart q p := fun n hq hp => h n hp hq

/-! ### Whole runs -/

theorem reach_holds {u : RelaySession} {c : Config State Pc}
    (h : Reach relay MeetsNoOpenClaim (start u) c) : Holds Inv Role Apart c := by
  refine h.owicki ?own ?other ?init
  case own =>
    intro s s' p p' a hI hp hg hstep
    have hm := step_moves hstep
    exact ⟨hm.inv hI hp, hm.role_self hp hg⟩
  case other =>
    intro s s' p p' q a hI hp hq hpq hqp hg hstep
    have hm := step_moves hstep
    exact ⟨hm.role_other hp hq hqp, hm.apart hq hpq, (hm.apart hq hpq).symm⟩
  case init =>
    refine ⟨⟨fun v hv => ?_, fun _ n hn => ?_⟩, fun i => ⟨?_, ?_⟩, fun i j _ => ?_⟩
    · obtain rfl : u.row = v := some.inj hv
      exact u.fresh
    · simp [start] at hn
    · simp [start, Pc.owned]
    · simp [start, Pc.vouched]
    · simp [start, Apart, Pc.owned]

/-- **Acknowledged chunks are recorded**, in every state of a run in which no PUT meets an
unfinished claim; the states without a PUT in flight are among them. -/
theorem acked_parts_durable {u : RelaySession} {c : Config State Pc}
    (h : Reach relay MeetsNoOpenClaim (start u) c) : AcksDurable c.shared := by
  have hc := reach_holds h
  exact ⟨hc.shared.count, fun v hv _ n hn => hc.shared.acked (by simp [hv]) n hn⟩

/-- A session of two chunks. -/
def twoChunks : RelaySession where
  row :=
    { id := "relay", totalSize := 7, chunkSize := 5, totalChunks := 2, status := .uploading
      sessionKind := .providerRelayMultipart, objectTempKey := some "files/temp"
      objectMultipartId := some "multipart", expiresAt := 100 }
  kind := rfl
  fresh := rfl

/-- Chunk 1 is stored and acknowledged, and a retry of it is acknowledged from the recorded row. -/
def storedThenRetried : List (ℕ × Act) :=
  [(0, .put ⟨1, 2, false⟩ 10), (0, .succeed 11), (0, .uploaded ⟨"etag-2", by decide⟩),
    (0, .succeed 12), (0, .succeed 13), (1, .put ⟨1, 2, true⟩ 14), (1, .succeed 15),
    (1, .succeed 16), (1, .succeed 17)]

theorem acked_parts_durable_twoChunks :
    ∃ c, Reach relay MeetsNoOpenClaim (start twoChunks) c ∧ c.shared.acked = [1, 1] ∧ AcksDurable c.shared := by
  have hrun : (relay.run MeetsNoOpenClaim (start twoChunks) storedThenRetried).isSome := by decide
  exact ⟨_, reach_run_get hrun, rfl, acked_parts_durable (reach_run_get hrun)⟩

/-- Two PUTs of chunk 0: worker 1 loses the claim to worker 0 and answers `Ok`, then the provider
rejects worker 0's part and worker 0 releases its claim. -/
def loserAnswersFirst : List (ℕ × Act) :=
  [(0, .put ⟨0, 5, false⟩ 10), (0, .succeed 11), (1, .put ⟨0, 5, false⟩ 12), (1, .succeed 13),
    (1, .succeed 14), (0, .rejected .transient "connection reset"), (0, .succeed 15)]

/-- **An acknowledged chunk without a part row**, with no PUT in flight and the session still
uploading. -/
theorem ack_without_part : ¬ ∀ (u : RelaySession) (c : Config State Pc), Reach relay free (start u) c →
      Quiescent c → AcksDurable c.shared := by
  intro hall
  have hrun : (relay.run free (start twoChunks) loserAnswersFirst).isSome := by decide
  have hquiet : Quiescent ((relay.run free (start twoChunks) loserAnswersFirst).get hrun) := by
    intro i
    match i with
    | 0 => exact .inr ⟨_, rfl⟩
    | 1 => exact .inr ⟨_, rfl⟩
    | _ + 2 => exact .inl rfl
  obtain ⟨r, hr, -⟩ := (hall twoChunks _ (reach_run_get hrun) hquiet).acked twoChunks.row rfl rfl 0
    (mem_singleton.mpr rfl)
  exact nomatch hr

end AsterDrive.Upload.RelayMultipart
