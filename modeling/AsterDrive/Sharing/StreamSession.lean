import Mathlib.Logic.Function.Basic
import AsterDrive.Lib.Census
import AsterDrive.Lib.Lts
import AsterDrive.Sharing.Shares

/-!
# Sharing/StreamSession — a stream session counts as one download

Every request of a session comes with the same token (`share/stream/mod.rs`). The first one reserves a marker in
the shared cache, counts the download and turns the marker to `Counted`; the others find it and do not count. When
its response cannot be built, the request that counted deletes the marker and takes the count back.

Two of these go wrong. A request may have been let through on the marker before the one that counted fails, and then
its content is not counted (`content_not_counted`). And the session may expire after the increment and before the
marker, which leaves through `?` with the download counted (`counted_without_content`).
-/

namespace AsterDrive.Sharing

open List Option

/-- `CountMarkerState`. -/
inductive CountMarkerState
  | pending
  | counted
  deriving DecidableEq

/-- `load_count_marker`, from the values of the two caches. -/
def loadCountMarker (primary fallback : Option CountMarkerState) : Option CountMarkerState :=
  if primary = some .counted ∨ fallback = some .counted then some .counted
  else if primary = some .pending ∨ fallback = some .pending then some .pending
  else none

/-- How far a request is. `round` is that of the loop of `ensure_counted_once`, `reserved` is whether this request
holds the `CountReservation::Reserved`, `refund` is whether it has counted and takes that back. -/
inductive StreamPhase
  | arrived
  | resolved
  | counting (round : ℕ)
  | primaryLoaded (round : ℕ) (primary : Option CountMarkerState)
  | reserving (round : ℕ)
  | reservedPrimary
  | incrementing
  | marking
  | storingFallback
  | storingPrimary
  | building (reserved : Bool)
  | releasing (refund : Bool)
  | forgetting (refund : Bool)
  | refunding
  | served (reserved : Bool)
  | failed
  deriving DecidableEq

open StreamPhase

/-- A request of the session, on one of the servers. -/
structure StreamCall where
  server : ℕ
  phase : StreamPhase
  deriving DecidableEq

/-- The marker in the shared cache and in the cache of every server, the share, and the clock in nanoseconds. The
counter of `share` is what the downloads outside this session add up to, and `contributed` what the session adds. -/
structure StreamStore where
  primary : Option CountMarkerState
  fallback : ℕ → Option CountMarkerState
  share : Share
  contributed : ℕ
  now : ℕ

/-- The `shares` row. -/
def StreamStore.row (s : StreamStore) : Share := { s.share with downloadCount := s.share.downloadCount + s.contributed }

/-- A session: the stores, and all the requests it has ever had. -/
structure StreamSession where
  store : StreamStore
  calls : List StreamCall

inductive StreamAct
  | arrive (server : ℕ)
  | proceed (i : ℕ) (ok : Bool)
  | tick (nanos : ℕ)
  | expirePrimary
  | evictFallback (server : ℕ)
  | others (share : Share)

def nanosPerSecond : ℕ := 1000000000

/-- `decode_expiry(payload.exp)? < Utc::now()`. -/
def sessionExpired (exp now : ℕ) : Bool := exp * nanosPerSecond < now

/-- `ttl_seconds`: whether anything is left of the session, in whole seconds. -/
def ttlLeft (exp now : ℕ) : Bool := 0 < exp - now / nanosPerSecond

/-- The next statement of a request. `ok` is the outcome of what is decided elsewhere: the checks of the target
before the count, the increment and the decrement reaching the database, and the response being built. -/
def streamStatement (exp server : ℕ) (ok : Bool) (s : StreamStore) : StreamPhase → Option (StreamPhase × StreamStore)
  -- `resolve_session_target` and the checks of the file; the marker found here only lifts the download limit
  | .arrived =>
    if sessionExpired exp s.now then some (.releasing false, s)
    else if ok then some (.resolved, s) else some (.failed, s)
  -- `ensure_counted_once`
  | .resolved => if ttlLeft exp s.now then some (.counting 0, s) else some (.failed, s)
  | .counting round => if round < 20 then some (.primaryLoaded round s.primary, s) else some (.failed, s)
  | .primaryLoaded round primary =>
    match loadCountMarker primary (s.fallback server) with
    | some .counted => some (.building false, s)
    | some .pending => some (.counting (round + 1), s)
    | none => some (.reserving round, s)
  -- `set_bytes_if_absent`
  | .reserving round =>
    if s.primary = none then some (.reservedPrimary, { s with primary := some .pending })
    else some (.counting (round + 1), s)
  | .reservedPrimary =>
    some (.incrementing, { s with fallback := Function.update s.fallback server (some .pending) })
  | .incrementing =>
    if ok ∧ availableDownloads s.row then some (.marking, { s with contributed := s.contributed + 1 })
    else some (.releasing false, s)
  -- `mark_counted`
  | .marking => if ttlLeft exp s.now then some (.storingFallback, s) else some (.failed, s)
  | .storingFallback =>
    some (.storingPrimary, { s with fallback := Function.update s.fallback server (some .counted) })
  | .storingPrimary => some (.building true, { s with primary := some .counted })
  | .building reserved =>
    if ok then some (.served reserved, s)
    else if reserved then some (.releasing true, s) else some (.failed, s)
  -- `delete_count_marker`
  | .releasing refund => some (.forgetting refund, { s with primary := none })
  | .forgetting refund =>
    some (if refund then .refunding else .failed, { s with fallback := Function.update s.fallback server none })
  | .refunding =>
    if ok then
      some (.failed, { s with contributed := loweredCount s.row.downloadCount 1 - s.share.downloadCount })
    else some (.failed, s)
  | .served _ => none
  | .failed => none

/-- A request arrives, one proceeds, or something outside happens: an entry of the shared cache lives until the session
expires, an entry of a server's own may be evicted at any time. -/
def stepStream (exp : ℕ) (x : StreamSession) : StreamAct → Option StreamSession
  | .arrive server => some { x with calls := x.calls ++ [⟨server, .arrived⟩] }
  | .proceed i ok =>
    x.calls[i]?.bind fun c =>
      (streamStatement exp c.server ok x.store c.phase).map fun r =>
        { store := r.2, calls := x.calls.set i { c with phase := r.1 } }
  | .tick nanos => some { x with store := { x.store with now := x.store.now + nanos } }
  | .expirePrimary =>
    if ttlLeft exp x.store.now then none else some { x with store := { x.store with primary := none } }
  | .evictFallback server =>
    some { x with store := { x.store with fallback := Function.update x.store.fallback server none } }
  | .others share => some { x with store := { x.store with share } }

def streamSession (exp : ℕ) : Lts StreamSession StreamAct := ⟨stepStream exp⟩

/-- No marker, no request. -/
def StreamSession.start (share : Share) (now : ℕ) : StreamSession :=
  { store := { primary := none, fallback := fun _ => none, share, contributed := 0, now }, calls := [] }

/-! ### What a request stands for -/

/-- Its download is counted, and stays counted unless its response fails. -/
def StreamPhase.stands : StreamPhase → Bool
  | .marking | .storingFallback | .storingPrimary | .building true | .served true => true
  | _ => false

/-- Its download is counted, and it is taking that back. -/
def StreamPhase.owes : StreamPhase → Bool
  | .releasing true | .forgetting true | .refunding => true
  | _ => false

/-- It was let through on the count of another request. -/
def StreamPhase.relies : StreamPhase → Bool
  | .building false | .served false => true
  | _ => false

/-- It returned content. -/
def StreamPhase.returned : StreamPhase → Bool
  | .served _ => true
  | _ => false

/-- It is over. -/
def StreamPhase.over : StreamPhase → Bool
  | .served _ | .failed => true
  | _ => false

/-- It has passed the check before the marker. -/
def StreamPhase.marked : StreamPhase → Bool
  | .storingFallback | .storingPrimary | .building true | .served true => true
  | _ => false

/-- The marker of the shared cache is its own, while the session lasts. -/
def StreamPhase.owns : StreamPhase → Bool
  | .reservedPrimary | .incrementing | .marking | .storingFallback | .storingPrimary | .building true | .served true
  | .releasing _ => true
  | _ => false

/-- How many requests of the session are in a class. -/
def StreamSession.census (x : StreamSession) (p : StreamPhase → Bool) : ℕ := x.calls.countP fun c => p c.phase

/-- No request in flight. -/
def StreamSession.Quiet (x : StreamSession) : Prop := ∀ c ∈ x.calls, c.phase.over

/-- Some request returned content. -/
def StreamSession.Returned (x : StreamSession) : Prop := ∃ c ∈ x.calls, c.phase.returned

instance (x : StreamSession) : Decidable x.Returned := inferInstanceAs (Decidable (∃ c ∈ x.calls, c.phase.returned))

/-- The step in which a request returns content. -/
def StreamSession.Returns (x : StreamSession) (a : StreamAct) : Prop :=
  ∃ i reserved, a = .proceed i true ∧ x.calls[i]?.map StreamCall.phase = some (.building reserved)

/-- The condition on one request's next statement. -/
def SettledCall (exp : ℕ) (x : StreamSession) (c : StreamCall) (ok : Bool) : Prop :=
  match c.phase with
  | .marking => ttlLeft exp x.store.now
  | .primaryLoaded _ primary =>
    loadCountMarker primary (x.store.fallback c.server) = some .counted → 0 < x.census stands
  | .building true => ok = false → x.census relies = 0
  | .refunding => ok
  | _ => True

/-- The count and the content stay together: the check before the marker comes before the session expires, a marker
lets a request through only while a count stands, the response of a request that counted does not fail once another
one relies on its count, and the statement that takes a count back does not fail. -/
def Settled (exp : ℕ) (x : StreamSession) : StreamAct → Prop
  | .proceed i ok => ∀ c ∈ x.calls[i]?, SettledCall exp x c ok
  | _ => True

instance (exp : ℕ) (x : StreamSession) (c : StreamCall) (ok : Bool) : Decidable (SettledCall exp x c ok) := by
  unfold SettledCall
  split <;> infer_instance

instance (exp : ℕ) (x : StreamSession) (a : StreamAct) : Decidable (Settled exp x a) := by
  unfold Settled
  split <;> infer_instance

/-! ### The invariant -/

/-- Its download is in the counter. -/
def StreamPhase.charged (p : StreamPhase) : Bool := p.stands || p.owes

section

variable {exp server i : ℕ} {ok : Bool} {s s' : StreamStore} {p p' : StreamPhase} {x x' : StreamSession}
  {a : StreamAct} {c : StreamCall} {q q' : StreamPhase → Bool}

/-- What a statement of a request in phase `p` does to the books, when `standing` requests count and `relying` rely. -/
structure StreamEffect (exp : ℕ) (s : StreamStore) (p : StreamPhase) (s' : StreamStore) (p' : StreamPhase)
    (standing relying : ℕ) : Prop where
  now : s'.now = s.now
  charge : s'.contributed + (if p.charged then 1 else 0) = s.contributed + if p'.charged then 1 else 0
  marks : p'.marked → p.marked ∨ ttlLeft exp s.now
  owns : p'.owns → p.owns ∨ s.primary = none ∨ ttlLeft exp s.now = false
  holds : p'.owns → s'.primary = none → p.owns ∨ ttlLeft exp s.now = false
  frees : s'.primary = none → s.primary = none ∨ p.owns ∧ p'.owns = false
  relies : p'.relies → p.relies ∨ 0 < standing
  stands : p.stands → p'.stands ∨ relying = 0 ∧ p'.relies = false

theorem ttlLeft_of_expired {now : ℕ} (h : sessionExpired exp now) : ttlLeft exp now = false := by
  have hlate : exp * nanosPerSecond < now := of_decide_eq_true h
  have hdiv : exp ≤ now / nanosPerSecond := (Nat.le_div_iff_mul_le (by decide)).mpr (Nat.le_of_lt hlate)
  refine decide_eq_false ?_
  omega

/-- A statement that leaves the stores alone, of a request without marker or count before and after. -/
theorem StreamEffect.idle {standing relying : ℕ} (hcharge : p.charged = p'.charged) (hmarks : p'.marked = p.marked)
    (howns : p'.owns = p.owns) (hrelies : p'.relies → p.relies ∨ 0 < standing) (hstands : p.stands → p'.stands) :
    StreamEffect exp s p s p' standing relying where
  now := rfl
  charge := by rw [hcharge]
  marks := fun h => .inl (hmarks ▸ h)
  owns := fun h => .inl (howns ▸ h)
  holds := fun h _ => .inl (howns ▸ h)
  frees := .inl
  relies := hrelies
  stands := fun h => .inl (hstands h)

theorem streamStatement_effect (hcall : x.calls[i]? = some c) (hguard : SettledCall exp x c ok)
    (hpaid : c.phase.charged → 0 < x.store.contributed)
    (h : streamStatement exp c.server ok x.store c.phase = some (p', s')) :
    StreamEffect exp x.store c.phase s' p' (x.census stands) (x.census relies) := by
  obtain ⟨server, phase⟩ := c
  cases phase with simp only [streamStatement] at h
  | arrived =>
    split_ifs at h with hexp
    · cases h
      have hlate := ttlLeft_of_expired hexp
      exact ⟨rfl, rfl, by simp [marked], fun _ => .inr (.inr hlate), fun _ _ => .inr hlate, .inl,
        by simp [relies], by simp [stands]⟩
    all_goals
      cases h
      exact .idle rfl rfl rfl (by simp [relies]) (by simp [stands])
  | resolved | counting round =>
    split_ifs at h
    all_goals
      cases h
      exact .idle rfl rfl rfl (by simp [relies]) (by simp [stands])
  | primaryLoaded round primary =>
    split at h
    next hload =>
      cases h
      exact .idle rfl rfl rfl (fun _ => .inr (hguard hload)) (by simp [stands])
    all_goals
      cases h
      exact .idle rfl rfl rfl (by simp [relies]) (by simp [stands])
  | reserving round =>
    split_ifs at h with hnone
    · cases h
      exact ⟨rfl, rfl, by simp [marked], fun _ => .inr (.inl hnone), by simp, by simp,
        by simp [relies], by simp [stands]⟩
    · cases h
      exact .idle rfl rfl rfl (by simp [relies]) (by simp [stands])
  | reservedPrimary =>
    cases h
    exact ⟨rfl, rfl, by simp [marked], fun _ => .inl rfl, fun _ _ => .inl rfl, .inl, by simp [relies], by simp [stands]⟩
  | incrementing =>
    split_ifs at h
    · cases h
      exact ⟨rfl, rfl, by simp [marked], fun _ => .inl rfl, fun _ _ => .inl rfl, .inl,
        by simp [relies], by simp [stands]⟩
    · cases h
      exact .idle rfl rfl rfl (by simp [relies]) (by simp [stands])
  | marking =>
    have hleft : ttlLeft exp x.store.now = true := hguard
    simp only [streamStatement, hleft, if_true] at h
    cases h
    exact ⟨rfl, rfl, fun _ => .inr hleft, fun _ => .inl rfl, fun _ _ => .inl rfl, .inl,
      by simp [relies], fun _ => .inl rfl⟩
  | storingFallback =>
    cases h
    exact ⟨rfl, rfl, fun _ => .inl rfl, fun _ => .inl rfl, fun _ _ => .inl rfl, .inl,
      by simp [relies], fun _ => .inl rfl⟩
  | storingPrimary =>
    cases h
    exact ⟨rfl, rfl, fun _ => .inl rfl, fun _ => .inl rfl, fun _ _ => .inl rfl, by simp,
      by simp [relies], fun _ => .inl rfl⟩
  | building reserved =>
    cases reserved with
    | false =>
      simp only [streamStatement, Bool.false_eq_true, if_false] at h
      split_ifs at h
      · cases h
        exact .idle rfl rfl rfl (fun _ => .inl rfl) (by simp [stands])
      · cases h
        exact .idle rfl rfl rfl (by simp [relies]) (by simp [stands])
    | true =>
      simp only [streamStatement, if_true] at h
      split_ifs at h with hok
      · cases h
        exact .idle rfl rfl rfl (by simp [relies]) fun _ => rfl
      · cases h
        -- the count is taken back: nobody relies on it
        have halone : x.census relies = 0 := hguard (Bool.eq_false_iff.mpr hok)
        exact ⟨rfl, rfl, by simp [marked], fun _ => .inl rfl, fun _ _ => .inl rfl, .inl,
          by simp [relies], fun _ => .inr ⟨halone, rfl⟩⟩
  | releasing refund =>
    cases h
    exact ⟨rfl, by cases refund <;> rfl, by simp [marked], by simp [owns],
      by simp [owns], fun _ => .inr ⟨rfl, rfl⟩, by simp [relies],
      by simp [stands]⟩
  | forgetting refund =>
    cases h
    cases refund with
    | false | true =>
      exact ⟨rfl, rfl, by simp [marked], by simp [owns], by simp [owns], .inl, by simp [relies], by simp [stands]⟩
  | refunding =>
    have hok : ok = true := hguard
    simp only [streamStatement, hok, if_true] at h
    cases h
    have hcount : 0 < x.store.contributed := hpaid rfl
    refine ⟨rfl, ?_, by simp [marked], by simp [owns], by simp [owns], .inl, by simp [relies], by simp [stands]⟩
    show loweredCount (x.store.share.downloadCount + x.store.contributed) 1 - x.store.share.downloadCount + 1 =
      x.store.contributed + 0
    unfold loweredCount
    rw [if_neg (by omega)]
    omega
  | served reserved | failed => cases h

/-- The contribution is what the requests stand for, nobody relies on a count that is not there, and while the session
lasts the marker belongs to the one request that may count. -/
structure Accounted (exp : ℕ) (x : StreamSession) : Prop where
  charged : x.store.contributed = x.census charged
  relied : 0 < x.census relies → 0 < x.census stands
  marked : x.census marked ≤ 1
  owned : ttlLeft exp x.store.now → x.census owns ≤ 1 ∧ (x.store.primary = none → x.census owns = 0)

theorem Accounted.start {share : Share} {now : ℕ} : Accounted exp (.start share now) :=
  ⟨rfl, fun h => absurd h (Nat.lt_irrefl 0), Nat.zero_le 1, fun _ => ⟨Nat.zero_le 1, fun _ => rfl⟩⟩

theorem census_set {store : StreamStore} (h : x.calls[i]? = some c) :
    StreamSession.census ⟨store, x.calls.set i { c with phase := p' }⟩ q + (if q c.phase then 1 else 0) =
      x.census q + if q p' then 1 else 0 :=
  Census.replaced (fun c : StreamCall => q c.phase) h

theorem census_pos (h : x.calls[i]? = some c) (hq : q c.phase) : 0 < x.census q :=
  countP_pos_iff.mpr ⟨c, mem_of_getElem? h, hq⟩

theorem census_mono (h : ∀ p, q p → q' p) : x.census q ≤ x.census q' := Census.le_of_imp fun c _ => h c.phase

theorem StreamPhase.marked_owns (h : p.marked) : p.owns := by
  cases p with
  | building reserved | served reserved => cases reserved <;> first | rfl | cases h
  | storingFallback | storingPrimary => rfl
  | _ => cases h

theorem StreamPhase.stands_charged (h : p.stands) : p.charged := by
  unfold charged
  rw [h]
  rfl

/-- The clock and the caches of the servers do not matter, nor does the shared one once the session has expired. -/
theorem Accounted.outside {store : StreamStore} (h : Accounted exp x)
    (hcontributed : store.contributed = x.store.contributed) (hnow : x.store.now ≤ store.now)
    (hprimary : ttlLeft exp store.now → store.primary = x.store.primary) :
    Accounted exp { x with store } where
  charged := hcontributed.trans h.charged
  relied := h.relied
  marked := h.marked
  owned := by
    intro hleft
    have hbefore : ttlLeft exp x.store.now := by
      have hdiv : x.store.now / nanosPerSecond ≤ store.now / nanosPerSecond := Nat.div_le_div_right hnow
      have hpos : 0 < exp - store.now / nanosPerSecond := of_decide_eq_true hleft
      refine decide_eq_true ?_
      omega
    obtain ⟨hone, hnone⟩ := h.owned hbefore
    exact ⟨hone, fun hempty => hnone ((hprimary hleft).symm.trans hempty)⟩

theorem Accounted.arrive (h : Accounted exp x) (server : ℕ) :
    Accounted exp { x with calls := x.calls ++ [⟨server, .arrived⟩] } := by
  have hcensus : ∀ q : StreamPhase → Bool, q .arrived = false →
      StreamSession.census ⟨x.store, x.calls ++ [⟨server, .arrived⟩]⟩ q = x.census q := by
    intro q hq
    refine (Census.joined (fun c : StreamCall => q c.phase) x.calls ⟨server, .arrived⟩).trans ?_
    rw [hq]
    rfl
  constructor
  · rw [hcensus _ rfl]
    exact h.charged
  · rw [hcensus _ rfl, hcensus _ rfl]
    exact h.relied
  · rw [hcensus _ rfl]
    exact h.marked
  · rw [hcensus _ rfl]
    exact h.owned

theorem Accounted.moved (h : Accounted exp x)
    (hcensus : ∀ q : StreamPhase → Bool, x'.census q + (if q p then 1 else 0) = x.census q + if q p' then 1 else 0)
    (hmember : ∀ q : StreamPhase → Bool, q p → 0 < x.census q)
    (heffect : StreamEffect exp x.store p x'.store p' (x.census stands) (x.census relies)) :
    Accounted exp x' := by
  have howned : ttlLeft exp x.store.now → x'.census owns ≤ 1 ∧ (x'.store.primary = none → x'.census owns = 0) := by
    intro hleft
    obtain ⟨hone, hnone⟩ := h.owned hleft
    have hmoved := hcensus owns
    have hmine := hmember owns
    constructor
    · by_cases hp' : p'.owns
      · rcases heffect.owns hp' with hp | hempty | hlate
        · simp only [hp, hp', if_true] at hmoved
          omega
        · have hzero := hnone hempty
          split_ifs at hmoved <;> omega
        · rw [hleft] at hlate
          cases hlate
      · split_ifs at hmoved <;> omega
    · intro hempty
      rcases heffect.frees hempty with hbefore | ⟨hp, hp'⟩
      · have hzero := hnone hbefore
        by_cases hp' : p'.owns
        · rcases heffect.holds hp' hempty with hp | hlate
          · have := hmine hp
            omega
          · rw [hleft] at hlate
            cases hlate
        · split_ifs at hmoved <;> omega
      · simp only [hp, hp', if_true] at hmoved
        simp at hmoved
        omega
  constructor
  · have hmoved := hcensus StreamPhase.charged
    have hcharge := heffect.charge
    have hbooks := h.charged
    omega
  · have hrelies := hcensus relies
    have hstands := hcensus stands
    intro hpos
    have hbefore := h.relied
    by_cases hgone : p.stands ∧ ¬ p'.stands
    · -- nobody relied before, nor does the request that stood
      obtain ⟨hnobody, hp'⟩ := (heffect.stands hgone.1).resolve_left hgone.2
      simp only [hp', Bool.false_eq_true, if_false] at hrelies
      omega
    · have hkept : x.census stands ≤ x'.census stands := by
        by_cases hp : p.stands
        · have hp' : p'.stands := by
            by_contra hp'
            exact hgone ⟨hp, hp'⟩
          simp only [hp, hp', if_true] at hstands
          omega
        · simp only [hp, Bool.false_eq_true, if_false] at hstands
          omega
      by_cases hp' : p'.relies
      · rcases heffect.relies hp' with hp | hstanding
        · have := hbefore (hmember relies hp)
          omega
        · omega
      · simp only [hp', Bool.false_eq_true, if_false] at hrelies
        omega
  · by_cases hleft : ttlLeft exp x.store.now
    · have hle : x'.census StreamPhase.marked ≤ x'.census StreamPhase.owns := census_mono fun _ => StreamPhase.marked_owns
      have := (howned hleft).1
      omega
    · have hmoved := hcensus StreamPhase.marked
      have hone := h.marked
      by_cases hp' : p'.marked
      · have hp : p.marked := (heffect.marks hp').resolve_right hleft
        simp only [hp, hp', if_true] at hmoved
        omega
      · split_ifs at hmoved <;> omega
  · rw [heffect.now]
    exact howned

theorem Accounted.step (h : Accounted exp x) (hguard : Settled exp x a) (hstep : stepStream exp x a = some x') :
    Accounted exp x' := by
  cases a with
  | arrive server =>
    cases hstep
    exact h.arrive server
  | proceed i ok =>
    obtain ⟨c, hcall, hstep⟩ := bind_eq_some_iff.mp hstep
    obtain ⟨⟨p', s'⟩, hstatement, rfl⟩ := map_eq_some_iff.mp hstep
    have hsettled : SettledCall exp x c ok := hguard c hcall
    have hpaid : c.phase.charged → 0 < x.store.contributed := by
      intro hc
      rw [h.charged]
      exact census_pos hcall hc
    exact h.moved (fun q => census_set hcall) (fun q => census_pos hcall)
      (streamStatement_effect hcall hsettled hpaid hstatement)
  | tick nanos =>
    cases hstep
    exact h.outside rfl (Nat.le_add_right _ _) fun _ => rfl
  | expirePrimary =>
    simp only [stepStream] at hstep
    split_ifs at hstep with hleft
    cases hstep
    exact h.outside rfl (Nat.le_refl _) fun hstill => absurd hstill hleft
  | evictFallback server | others share =>
    cases hstep
    exact h.outside rfl (Nat.le_refl _) fun _ => rfl

/-- With nobody in flight, what is counted is the one request that counted and returned content. -/
theorem Accounted.quiet (h : Accounted exp x) (hquiet : x.Quiet) :
    x.store.contributed = if x.Returned then 1 else 0 := by
  have hcharged : x.census StreamPhase.charged ≤ x.census StreamPhase.marked := by
    refine countP_mono_left fun c hc hcharge => ?_
    have hover := hquiet c hc
    cases hphase : c.phase with
    | served reserved =>
      rw [hphase] at hcharge
      cases reserved with
      | true => rfl
      | false => cases hcharge
    | failed =>
      rw [hphase] at hcharge
      cases hcharge
    | _ =>
      rw [hphase] at hover
      cases hover
  have hone := h.marked
  have hbooks := h.charged
  split_ifs with hreturned
  · obtain ⟨c, hc, hcontent⟩ := hreturned
    obtain ⟨i, hcall⟩ := getElem?_of_mem hc
    have hstands : 0 < x.census stands := by
      cases hphase : c.phase with
      | served reserved =>
        cases reserved with
        | true => exact census_pos hcall (by rw [hphase]; rfl)
        | false => exact h.relied (census_pos hcall (by rw [hphase]; rfl))
      | _ =>
        rw [hphase] at hcontent
        cases hcontent
    have hcounted : x.census StreamPhase.stands ≤ x.census StreamPhase.charged := census_mono fun _ => stands_charged
    omega
  · have hnone : x.census StreamPhase.charged = 0 := by
      refine countP_eq_zero.mpr fun c hc hcharge => hreturned ⟨c, hc, ?_⟩
      have hover := hquiet c hc
      cases hphase : c.phase with
      | served reserved => rfl
      | failed =>
        rw [hphase] at hcharge
        cases hcharge
      | _ =>
        rw [hphase] at hover
        cases hover
    omega

theorem Accounted.returns (h : Accounted exp x) (hreturns : x.Returns a) : 0 < x.store.contributed := by
  obtain ⟨i, reserved, -, hphase⟩ := hreturns
  obtain ⟨c, hcall, hc⟩ := map_eq_some_iff.mp hphase
  have hstands : 0 < x.census stands := by
    cases reserved with
    | true => exact census_pos hcall (by rw [hc]; rfl)
    | false => exact h.relied (census_pos hcall (by rw [hc]; rfl))
  have hcounted : x.census StreamPhase.stands ≤ x.census StreamPhase.charged := census_mono fun _ => stands_charged
  have hbooks := h.charged
  omega

end

/-- **One session, one download.** In every run that keeps the count and the content together: whenever no request is in
flight the session has added one download if some request returned content and none otherwise, and no request returns
content while it has added none. -/
theorem session_counted_once (exp now : ℕ) (share : Share) (x : StreamSession)
    (h : Lts.Reach (streamSession exp) (Settled exp) (.start share now) x) :
    (x.Quiet → x.store.contributed = if x.Returned then 1 else 0) ∧ ∀ a, x.Returns a → 0 < x.store.contributed := by
  have hbooks : Accounted exp x := h.induct (I := Accounted exp) .start fun hx hg hstep => hx.step hg hstep
  exact ⟨hbooks.quiet, fun a => hbooks.returns⟩

/-- A share of file 5 without a limit. -/
def streamedShare : Share :=
  { id := 1, userId := 1, teamId := none, fileId := some 5, folderId := none, expiresAt := none, maxDownloads := 0
    downloadCount := 3 }

/-- `n` statements of request `i`, all of which succeed. -/
def proceeds (i n : ℕ) : List StreamAct := List.replicate n (.proceed i true)

/-- The first request fails and takes its count back; then another one counts, and a third one on another server finds
its marker. -/
def settledSchedule : List StreamAct :=
  [.arrive 0] ++ proceeds 0 10 ++ [.proceed 0 false] ++ proceeds 0 3 ++ [.arrive 0] ++ proceeds 1 11 ++ [.arrive 1] ++
    proceeds 2 5

theorem session_counted_once_thrice :
    ∃ x, Lts.Reach (streamSession 60) (Settled 60) (.start streamedShare 0) x ∧ x.calls.length = 3 ∧ x.Quiet ∧
      x.store.contributed = 1 := by
  have hrun : ((streamSession 60).run (Settled 60) settledSchedule (.start streamedShare 0)).map
      (fun x => x.calls) = some [⟨0, .failed⟩, ⟨0, .served true⟩, ⟨1, .served false⟩] := by
    decide
  obtain ⟨x, hrun, hcalls⟩ := map_eq_some_iff.mp hrun
  have hreach := Lts.reach_of_run hrun
  have hquiet : x.Quiet := by
    unfold StreamSession.Quiet
    rw [hcalls]
    decide
  have hreturned : x.Returned := by
    unfold StreamSession.Returned
    rw [hcalls]
    decide
  have hcount := (session_counted_once 60 0 streamedShare x hreach).1 hquiet
  rw [if_pos hreturned] at hcount
  exact ⟨x, hreach, by rw [hcalls]; rfl, hquiet, hcount⟩

/-- A second request is let through on the marker of the first one, and returns content; then the response of the first
one fails, and the download is not counted any more. -/
theorem content_not_counted :
    ∃ x, Lts.Reach (streamSession 60) Lts.free (.start streamedShare 0) x ∧ x.Quiet ∧ x.Returned ∧
      x.store.contributed = 0 := by
  have hrun : ((streamSession 60).run Lts.free
      ([.arrive 0] ++ proceeds 0 10 ++ [.arrive 0] ++ proceeds 1 5 ++ [.proceed 0 false] ++ proceeds 0 3)
      (.start streamedShare 0)).map (fun x => (x.calls, x.store.contributed)) =
        some ([⟨0, .failed⟩, ⟨0, .served false⟩], 0) := by
    decide
  obtain ⟨x, hrun, hcalls, hcount⟩ := map_pair_eq_some hrun
  refine ⟨x, Lts.reach_of_run hrun, ?_, ?_, hcount⟩
  · unfold StreamSession.Quiet
    rw [hcalls]
    decide
  · unfold StreamSession.Returned
    rw [hcalls]
    decide

end AsterDrive.Sharing
