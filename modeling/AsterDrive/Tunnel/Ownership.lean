import AsterDrive.Lib.Lts
import Mathlib.Data.Finset.Card
import Mathlib.Data.Finset.Range
import Mathlib.Logic.Function.Basic

/-!
# Tunnel/Ownership — how long a primary owns the tunnel of a remote node

`try_claim_stream` and `release_stream_claim` of `tunnel/server/owner.rs`, for one node, with the lease store
as an atomic named lease. The lanes of the node share a counter behind an `Arc` and a lock: `stream_claims`
has the counter that new claims get, and a claim keeps its clone while it waits. `counters` is the heap of all
counters there have been, by address. A step is one operation on the map, on a counter, or on the lease.

A claim is one call of `try_claim_stream` with what becomes of its guard. `periods` counts the claims that
were granted while no other was in force, and `releases` the calls of `store.release`.
-/

namespace AsterDrive.Tunnel

open Function

open List Option Function

/-! ### The lease -/

/-- Who holds the lease, by its fencing token. -/
inductive Runtime
  | this
  | other (n : ℕ)
  deriving DecidableEq

inductive RuntimeLeaseAcquire
  | acquired
  | standby

def tryAcquire (lease : Option Runtime) (owner : Runtime) : RuntimeLeaseAcquire × Option Runtime :=
  match lease with
  | none => (.acquired, some owner)
  | some holder => if holder = owner then (.acquired, some holder) else (.standby, some holder)

def releaseLease (lease : Option Runtime) (owner : Runtime) : Option Runtime :=
  if lease = some owner then none else lease

variable {lease : Option Runtime} {owner : Runtime}

theorem tryAcquire_of_held {holder : Runtime} (h : lease = some holder)
    (hne : holder ≠ owner) : tryAcquire lease owner = (.standby, lease) := by
  rw [h, tryAcquire, if_neg hne]

theorem tryAcquire_acquired (h : (tryAcquire lease owner).1 = .acquired) : (tryAcquire lease owner).2 = some owner := by
  cases lease with
  | none => rfl
  | some holder =>
    by_cases heq : holder = owner
    · rw [tryAcquire, if_pos heq, heq]
    · simp [tryAcquire, heq] at h

theorem tryAcquire_standby (h : (tryAcquire lease owner).1 = .standby) : (tryAcquire lease owner).2 = lease := by
  cases lease with
  | none => simp [tryAcquire] at h
  | some holder =>
    by_cases heq : holder = owner
    · simp [tryAcquire, heq] at h
    · rw [tryAcquire, if_neg heq]

/-! ### Claims -/

/-- Where a claim is, with the counter that it has cloned. -/
inductive ClaimPhase
  | idle
  /-- it waits for the lock of the counter -/
  | claiming (c : ℕ)
  /-- `try_acquire` is next -/
  | acquiring (c : ℕ)
  /-- `Standby`, `current_owner` is read -/
  | observing (c : ℕ)
  /-- `Acquired`, `persist_owner` is next -/
  | persisting (c : ℕ)
  /-- the guard exists -/
  | granted
  /-- `release_stream_claim` waits for the lock of the counter -/
  | locking (c : ℕ)
  /-- it is the last of the counter, and the release of the lease is next -/
  | releasing (c : ℕ)
  /-- the lease is released, `*claim_count = 0` is next -/
  | clearing (c : ℕ)
  /-- it waits for the lock of `stream_claims` -/
  | leaving (c : ℕ)
  /-- it holds that lock, found its counter there, and waits for the counter -/
  | removing (c : ℕ)
  | finished
  deriving DecidableEq

open ClaimPhase

namespace ClaimPhase

/-- The counter that is taken for the one in the map. -/
def counter : ClaimPhase → Option ℕ
  | claiming c | acquiring c | observing c | persisting c | locking c | releasing c | clearing c | removing c => some c
  | idle | granted | leaving _ | finished => none

/-- The counter whose lock the claim holds. -/
def locks : ClaimPhase → Option ℕ
  | acquiring c | observing c | persisting c | releasing c | clearing c => some c
  | idle | claiming _ | granted | locking _ | leaving _ | removing _ | finished => none

/-- It holds the lock of `stream_claims`. -/
def holdsMap : ClaimPhase → Bool
  | removing _ => true
  | idle | claiming _ | acquiring _ | observing _ | persisting _ | granted | locking _ | releasing _ | clearing _
  | leaving _ | finished => false

/-- It was granted, and its release is not through with the lease. -/
def inForce : ClaimPhase → Bool
  | granted | locking _ | releasing _ => true
  | idle | claiming _ | acquiring _ | observing _ | persisting _ | clearing _ | leaving _ | removing _ | finished => false

/-- The lease was acquired for it, and its release has not begun. -/
def leased : ClaimPhase → Bool
  | persisting _ | granted => true
  | idle | claiming _ | acquiring _ | observing _ | locking _ | releasing _ | clearing _ | leaving _ | removing _
  | finished => false

end ClaimPhase

structure ClaimCounter where
  count : ℕ
  lockedBy : Option ℕ

structure OwnerDirectory where
  lease : Option Runtime := none
  /-- `stream_claims` -/
  streamClaims : Option ℕ := none
  /-- the claim that holds the lock of `stream_claims` between two steps -/
  mapLock : Option ℕ := none
  counters : ℕ → ClaimCounter := fun _ => ⟨0, none⟩
  /-- the counters allocated so far -/
  allocated : ℕ := 0
  claim : ℕ → ClaimPhase := fun _ => .idle
  /-- the claims begun so far -/
  begun : ℕ := 0
  periods : ℕ := 0
  releases : ℕ := 0

open OwnerDirectory

namespace OwnerDirectory

/-- The claims in force. -/
def claims (s : OwnerDirectory) : Finset ℕ := (Finset.range s.begun).filter fun i => (s.claim i).inForce = true

def setClaim (s : OwnerDirectory) (i : ℕ) (phase : ClaimPhase) : OwnerDirectory :=
  { s with claim := update s.claim i phase }

def setCounter (s : OwnerDirectory) (c : ℕ) (count : ℕ) (lockedBy : Option ℕ) : OwnerDirectory :=
  { s with counters := update s.counters c ⟨count, lockedBy⟩ }

/-- `stream_claim_counter`: the counter in the map, or a new one. -/
def streamClaimCounter (s : OwnerDirectory) : ℕ × OwnerDirectory :=
  match s.streamClaims with
  | some c => (c, s)
  | none => (s.allocated, { s.setCounter s.allocated 0 none with
      streamClaims := some s.allocated, allocated := s.allocated + 1 })

/-- A claim begins with the counter `c`. -/
def begin (s : OwnerDirectory) (c : ℕ) : OwnerDirectory :=
  setClaim { s with begun := s.begun + 1 } s.begun (.claiming c)

/-- `*claim_count += 1` and the return of `try_claim_stream`. -/
def grant (s : OwnerDirectory) (i c : ℕ) : OwnerDirectory :=
  setClaim { s.setCounter c ((s.counters c).count + 1) none with
    periods := if s.claims = ∅ then s.periods + 1 else s.periods } i .granted

end OwnerDirectory

inductive OwnerAct
  /-- a new claim clones the counter of the map -/
  | claim
  | lockClaim (i : ℕ)
  | tryAcquire (i : ℕ)
  | persistOwner (i : ℕ)
  /-- an error of the database while the lease is taken or the owner is written or read -/
  | fail (i : ℕ)
  /-- `current_owner` has been read -/
  | standby (i : ℕ)
  /-- the lane has left: `release_stream_claim` clones the counter of the map -/
  | release (i : ℕ)
  | lockRelease (i : ℕ)
  | releaseLease (i : ℕ)
  | clear (i : ℕ)
  /-- the lock of `stream_claims`, and `ptr_eq` -/
  | leave (i : ℕ)
  /-- the counter under that lock, and `remove` if it is zero -/
  | remove (i : ℕ)
  | otherAcquires (n : ℕ)
  | otherReleases (n : ℕ)
  /-- a renewal by whoever holds the lease -/
  | renew
  /-- the lease runs out -/
  | expire
  deriving DecidableEq

open OwnerDirectory in
def ownerStep (s : OwnerDirectory) : OwnerAct → Option OwnerDirectory
  | .claim => if s.mapLock = none then some (s.streamClaimCounter.2.begin s.streamClaimCounter.1) else none
  | .lockClaim i =>
    match s.claim i with
    | .claiming c =>
      if (s.counters c).lockedBy = none then
        some (setClaim (s.setCounter c (s.counters c).count (some i)) i (.acquiring c))
      else none
    | _ => none
  | .tryAcquire i =>
    match s.claim i with
    | .acquiring c =>
      match tryAcquire s.lease .this with
      | (.acquired, lease) => some (setClaim { s with lease } i (.persisting c))
      | (.standby, lease) => some (setClaim { s with lease } i (.observing c))
    | _ => none
  | .persistOwner i =>
    match s.claim i with
    | .persisting c => some (s.grant i c)
    | _ => none
  | .fail i =>
    match s.claim i with
    | .acquiring c | .observing c | .persisting c => some (setClaim (s.setCounter c (s.counters c).count none) i .finished)
    | _ => none
  | .standby i =>
    match s.claim i with
    | .observing c => some (setClaim (s.setCounter c (s.counters c).count none) i .finished)
    | _ => none
  | .release i =>
    if s.claim i = .granted ∧ s.mapLock = none then
      match s.streamClaims with
      | none => some (s.setClaim i .finished)
      | some c => some (s.setClaim i (.locking c))
    else none
  | .lockRelease i =>
    match s.claim i with
    | .locking c =>
      if (s.counters c).lockedBy = none then
        if (s.counters c).count = 0 then some (s.setClaim i .finished)
        else if 1 < (s.counters c).count then
          some (setClaim (s.setCounter c ((s.counters c).count - 1) none) i .finished)
        else some (setClaim (s.setCounter c (s.counters c).count (some i)) i (.releasing c))
      else none
    | _ => none
  | .releaseLease i =>
    match s.claim i with
    | .releasing c =>
      some (setClaim { s with lease := releaseLease s.lease .this, releases := s.releases + 1 } i (.clearing c))
    | _ => none
  | .clear i =>
    match s.claim i with
    | .clearing c => some (setClaim (s.setCounter c 0 none) i (.leaving c))
    | _ => none
  | .leave i =>
    match s.claim i with
    | .leaving c =>
      if s.mapLock = none then
        if s.streamClaims = some c then some (setClaim { s with mapLock := some i } i (.removing c))
        else some (s.setClaim i .finished)
      else none
    | _ => none
  | .remove i =>
    match s.claim i with
    | .removing c =>
      if (s.counters c).lockedBy = none then
        let streamClaims := if (s.counters c).count = 0 then none else s.streamClaims
        some (setClaim { s with mapLock := none, streamClaims } i .finished)
      else none
    | _ => none
  | .otherAcquires n => some { s with lease := (tryAcquire s.lease (.other n)).2 }
  | .otherReleases n => some { s with lease := releaseLease s.lease (.other n) }
  | .renew => some s
  | .expire => some { s with lease := none }

example (s : OwnerDirectory) : ownerStep s .renew = some s := by simp only [ownerStep]

def owners : Lts OwnerDirectory OwnerAct where
  step := ownerStep

/-- No counter leaves the map while a claim holds a clone of it that it has not locked; and the renewals of a
claim succeed, that is, the lease does not run out under it. -/
def Attended (s : OwnerDirectory) : OwnerAct → Prop
  | .remove i =>
    match s.claim i with
    | .removing c => (s.counters c).count = 0 → ∀ j < s.begun, s.claim j ≠ .claiming c
    | _ => True
  | .expire => s.lease = some .this → ∀ j < s.begun, (s.claim j).leased = false
  | _ => True

instance (s : OwnerDirectory) : DecidablePred (Attended s) := fun a => by
  unfold Attended
  repeat' split
  all_goals infer_instance

/-! ### What a run keeps -/

/-- A counter keeps its last claim until it is cleared. -/
def OwnerDirectory.uncleared (s : OwnerDirectory) (c : ℕ) : ℕ :=
  match (s.counters c).lockedBy with
  | some i => if s.claim i = .clearing c then 1 else 0
  | none => 0

structure Counted (s : OwnerDirectory) : Prop where
  idle : ∀ i, s.begun ≤ i → s.claim i = .idle
  attached : ∀ {i c}, (s.claim i).counter = some c → s.streamClaims = some c
  lock : ∀ {i c}, (s.counters c).lockedBy = some i ↔ (s.claim i).locks = some c
  mapLock : ∀ {i}, s.mapLock = some i ↔ (s.claim i).holdsMap = true
  counted : ∀ {c}, s.streamClaims = some c → (s.counters c).count = s.claims.card + s.uncleared c
  cleared : ∀ {i c}, s.claim i = .clearing c → s.claims = ∅
  last : ∀ {i c}, s.claim i = .releasing c → s.claims = {i}
  unclaimed : s.streamClaims = none → s.claims = ∅
  owned : ∀ {i}, (s.claim i).leased = true → s.lease = some .this
  once : s.releases + (if s.claims = ∅ then 0 else 1) = s.periods

attribute [grind =] locks counter leased holdsMap uncleared

variable {s s' : OwnerDirectory} {i : ℕ}

theorem Counted.begun_of (hs : Counted s) (h : s.claim i ≠ .idle) : i < s.begun := by
  by_contra hge
  exact h (hs.idle i (by omega))

theorem Counted.mem_claims (hs : Counted s) : i ∈ s.claims ↔ (s.claim i).inForce = true := by
  rw [claims, Finset.mem_filter, Finset.mem_range]
  refine ⟨fun h => h.2, fun h => ⟨hs.begun_of fun hidle => ?_, h⟩⟩
  simp [hidle, inForce] at h

theorem mem_claims_iff : i ∈ s.claims ↔ i < s.begun ∧ (s.claim i).inForce = true := by
  rw [claims, Finset.mem_filter, Finset.mem_range]

variable {phase : ClaimPhase}

theorem claims_setClaim_same {p : ClaimPhase} (hc : s.claim i = p) (h : phase.inForce = p.inForce) :
    (s.setClaim i phase).claims = s.claims := by
  ext j
  rw [mem_claims_iff, mem_claims_iff]
  by_cases hj : j = i
  · subst hj
    simp [setClaim, h, hc]
  · simp [setClaim, hj]

theorem claims_setClaim_in (hi : i < s.begun) (h : phase.inForce = true) :
    (s.setClaim i phase).claims = insert i s.claims := by
  ext j
  rw [Finset.mem_insert, mem_claims_iff, mem_claims_iff]
  by_cases hj : j = i
  · subst hj
    simp [setClaim, h, hi]
  · simp [setClaim, hj]

theorem claims_setClaim_out (h : phase.inForce = false) : (s.setClaim i phase).claims = s.claims.erase i := by
  ext j
  rw [Finset.mem_erase, mem_claims_iff, mem_claims_iff]
  by_cases hj : j = i
  · subst hj
    simp [setClaim, h]
  · simp [setClaim, hj]

variable {c : ℕ}

theorem uncleared_setClaim (h : s.claim i ≠ .clearing c) (h' : phase ≠ .clearing c) :
    (s.setClaim i phase).uncleared c = s.uncleared c := by
  simp only [uncleared, setClaim]
  cases (s.counters c).lockedBy with
  | none => rfl
  | some j =>
    by_cases hj : j = i
    · simp [hj, h, h']
    · simp [hj]

theorem ClaimPhase.counter_of_locks {p : ClaimPhase} (h : p.locks = some c) : p.counter = some c := by
  cases p <;> first | exact h | simp [locks] at h

section

variable (hs : Counted s)
include hs

theorem Counted.locks_unique {j c' : ℕ} (hi : (s.claim i).locks = some c)
    (hj : (s.claim j).locks = some c') : j = i := by
  have hc : s.streamClaims = some c := hs.attached (counter_of_locks hi)
  have hc' : s.streamClaims = some c' := hs.attached (counter_of_locks hj)
  obtain rfl : c = c' := some.inj (hc.symm.trans hc')
  have hlocked : (s.counters c).lockedBy = some i := hs.lock.mpr hi
  exact some.inj ((hs.lock.mpr hj).symm.trans hlocked)

theorem Counted.claim (h : ownerStep s .claim = some s') : Counted s' := by
  by_cases hfree : s.mapLock = none
  swap
  · rw [ownerStep, if_neg hfree] at h
    cases h
  rw [ownerStep, if_pos hfree, some.injEq] at h
  subst h
  have hbegun : ∀ {t : OwnerDirectory} {c : ℕ}, t.claim = s.claim → t.begun = s.begun → (t.begin c).claims = s.claims := by
    intro t c htask hbegun
    ext j
    rw [mem_claims_iff, mem_claims_iff]
    simp only [begin, setClaim, htask, hbegun]
    grind -linarith [update, inForce]
  cases hmap : s.streamClaims with
  | some c =>
    simp only [streamClaimCounter, hmap]
    have hclaims : (s.begin c).claims = s.claims := hbegun rfl rfl
    cases hs
    constructor <;> simp only [↓hclaims, begin, setClaim] <;>
      grind -linarith [update]
  | none =>
    -- nobody has a counter that is not in the map
    have hnone : ∀ i c, (s.claim i).counter ≠ some c := fun i c hc => by simp [hs.attached hc] at hmap
    have hunlocked : ∀ i c, (s.claim i).locks ≠ some c := fun i c hc => hnone i c (counter_of_locks hc)
    simp only [streamClaimCounter, hmap]
    have hclaims := hbegun (t := { s.setCounter s.allocated 0 none with
      streamClaims := some s.allocated, allocated := s.allocated + 1 }) (c := s.allocated) rfl rfl
    cases hs
    constructor <;> simp only [↓hclaims, begin, setClaim, setCounter] <;>
      grind -linarith [update]

theorem Counted.lockClaim (h : ownerStep s (.lockClaim i) = some s') : Counted s' := by
  simp only [ownerStep] at h
  split at h
  next c hc =>
    split at h
    next hfree =>
      cases h
      have hclaims : ((s.setCounter c (s.counters c).count (some i)).setClaim i (.acquiring c)).claims = s.claims :=
        claims_setClaim_same hc rfl
      cases hs
      constructor <;> simp only [↓hclaims, setClaim, setCounter] <;>
        grind -linarith [update]
    next => cases h
  next => cases h

theorem Counted.tryAcquire (h : ownerStep s (.tryAcquire i) = some s') : Counted s' := by
  simp only [ownerStep] at h
  split at h
  next c hc =>
    split at h
    next lease hlease =>
      cases h
      have hthis : lease = some .this := by
        have : (tryAcquire s.lease .this).2 = some .this := tryAcquire_acquired (by rw [hlease])
        rwa [hlease] at this
      have hclaims : (setClaim { s with lease } i (.persisting c)).claims = s.claims := claims_setClaim_same hc rfl
      cases hs
      constructor <;> simp only [↓hclaims, setClaim] <;>
        grind -linarith [update]
    next lease hlease =>
      cases h
      have hsame : lease = s.lease := by
        have : (tryAcquire s.lease .this).2 = s.lease := tryAcquire_standby (by rw [hlease])
        rwa [hlease] at this
      have hclaims : (setClaim { s with lease } i (.observing c)).claims = s.claims := claims_setClaim_same hc rfl
      cases hs
      constructor <;> simp only [↓hclaims, setClaim] <;>
        grind -linarith [update]
  next => cases h

theorem Counted.persistOwner (h : ownerStep s (.persistOwner i) = some s') : Counted s' := by
  simp only [ownerStep] at h
  split at h
  next c hc =>
    cases h
    have hi : i < s.begun := hs.begun_of (by simp [hc])
    have hmap : s.streamClaims = some c := hs.attached (i := i) (by simp [hc, counter])
    have hlocked : (s.counters c).lockedBy = some i := hs.lock.mpr (by simp [hc, locks])
    have hnew : i ∉ s.claims := by
      rw [hs.mem_claims]
      simp [hc, inForce]
    -- the lock keeps the last claim of the counter away
    have halone : ∀ {j c'}, s.claim j ≠ .releasing c' ∧ s.claim j ≠ .clearing c' := by
      intro j c'
      have hlocks : (s.claim i).locks = some c := by simp [hc, locks]
      constructor
      all_goals
        intro hj
        have hjlocks : (s.claim j).locks = some c' := by simp [hj, locks]
        obtain rfl : j = i := hs.locks_unique hlocks hjlocks
        simp [hc] at hj
    have hclaims : (s.grant i c).claims = insert i s.claims := claims_setClaim_in hi rfl
    cases hs
    constructor <;> simp only [↓hclaims, grant, setClaim, setCounter] <;>
      grind -linarith [update]
  next => cases h

theorem Counted.fail (h : ownerStep s (.fail i) = some s') : Counted s' := by
  simp only [ownerStep] at h
  split at h
  case h_4 => cases h
  all_goals
    next c hc =>
    cases h
    have hclaims : (setClaim (s.setCounter c (s.counters c).count none) i .finished).claims = s.claims :=
      claims_setClaim_same hc rfl
    cases hs
    constructor <;> simp only [↓hclaims, setClaim, setCounter] <;>
      grind -linarith [update]

theorem Counted.standby (h : ownerStep s (.standby i) = some s') : Counted s' := by
  simp only [ownerStep] at h
  split at h
  next c hc =>
    refine hs.fail (i := i) ?_
    rw [← h, ownerStep, hc]
  next => cases h

theorem Counted.release (h : ownerStep s (.release i) = some s') : Counted s' := by
  by_cases hfree : s.claim i = .granted ∧ s.mapLock = none
  swap
  · rw [ownerStep, if_neg hfree] at h
    cases h
  obtain ⟨hc, hfree'⟩ := hfree
  rw [ownerStep, if_pos ⟨hc, hfree'⟩] at h
  have hmem : i ∈ s.claims := hs.mem_claims.mpr (by simp [hc, inForce])
  cases hmap : s.streamClaims with
  | none => simp [hs.unclaimed hmap] at hmem
  | some c =>
    simp only [hmap, some.injEq] at h
    subst h
    have hclaims : (s.setClaim i (.locking c)).claims = s.claims := claims_setClaim_same hc rfl
    have huncleared : ∀ c', (s.setClaim i (.locking c)).uncleared c' = s.uncleared c' := fun c' =>
      uncleared_setClaim (by simp [hc]) (by simp)
    cases hs
    constructor <;> simp only [↓hclaims, ↓huncleared, setClaim] <;>
      grind -linarith [update]

theorem Counted.lockRelease (h : ownerStep s (.lockRelease i) = some s') : Counted s' := by
  simp only [ownerStep] at h
  split at h
  next c hc =>
    have hmem : i ∈ s.claims := hs.mem_claims.mpr (by simp [hc, inForce])
    have hmap : s.streamClaims = some c := hs.attached (i := i) (by simp [hc, counter])
    have hpositive : 0 < s.claims.card := Finset.card_pos.mpr ⟨i, hmem⟩
    split at h
    next hfree =>
      have hcount : (s.counters c).count = s.claims.card := by
        rw [hs.counted hmap, uncleared, hfree, Nat.add_zero]
      -- the lock is free, so nobody is the last of the counter yet
      have hnone : ∀ j c', (s.claim j).locks ≠ some c' := by
        intro j c' hj
        have hc' : s.streamClaims = some c' := hs.attached (counter_of_locks hj)
        obtain rfl : c = c' := some.inj (hmap.symm.trans hc')
        simp [hs.lock.mpr hj] at hfree
      split at h
      next hzero => omega
      next hzero =>
        split at h
        next hmany =>
          cases h
          have hclaims : (setClaim (s.setCounter c ((s.counters c).count - 1) none) i .finished).claims =
            s.claims.erase i := claims_setClaim_out rfl
          have hcard : (s.claims.erase i).card = s.claims.card - 1 := Finset.card_erase_of_mem hmem
          cases hs
          constructor <;> simp only [↓hclaims, setClaim, setCounter] <;>
            grind -linarith [update]
        next hmany =>
          cases h
          obtain ⟨k, hk⟩ : ∃ k, s.claims = {k} := Finset.card_eq_one.mp (by omega)
          have hclaims : (setClaim (s.setCounter c (s.counters c).count (some i)) i (.releasing c)).claims =
            s.claims := claims_setClaim_same hc rfl
          cases hs
          constructor <;> simp only [↓hclaims, setClaim, setCounter] <;>
            grind -linarith [update]
    next => cases h
  next => cases h

theorem Counted.releaseLease (h : ownerStep s (.releaseLease i) = some s') : Counted s' := by
  simp only [ownerStep] at h
  split at h
  next c hc =>
    cases h
    have hlocks : (s.claim i).locks = some c := by simp [hc, locks]
    have hlone : s.claims = {i} := hs.last hc
    -- no other claim is granted, and none holds the lock to be granted
    have hnone : ∀ {j}, j ≠ i → (s.claim j).leased = false ∧ ∀ c', s.claim j ≠ .releasing c' := by
      intro j hj
      have hout : (s.claim j).inForce = false := by
        by_contra hin
        have hmem : j ∈ s.claims := hs.mem_claims.mpr (by simpa using hin)
        rw [hlone, Finset.mem_singleton] at hmem
        exact hj hmem
      have hunlocked : ∀ c', (s.claim j).locks ≠ some c' := fun c' h => hj (hs.locks_unique hlocks h)
      cases hphase : s.claim j <;> simp_all [leased, inForce, locks]
    have hclaims : (setClaim { s with
        lease := AsterDrive.Tunnel.releaseLease s.lease .this, releases := s.releases + 1 } i (.clearing c)).claims = ∅ := by
      refine (claims_setClaim_out rfl).trans ?_
      show s.claims.erase i = ∅
      rw [hlone, Finset.erase_singleton]
    -- the claim keeps the lock
    have hsame : ∀ j, (update s.claim i (.clearing c) j).locks = (s.claim j).locks := by
      intro j
      by_cases hj : j = i
      · rw [hj, update_self, hlocks]
        rfl
      · rw [update_of_ne hj]
    cases hs
    constructor <;> simp only [↓hclaims, setClaim, hsame] <;>
      grind -linarith [update]
  next => cases h

theorem Counted.clear (h : ownerStep s (.clear i) = some s') : Counted s' := by
  simp only [ownerStep] at h
  split at h
  next c hc =>
    cases h
    have hclaims : (setClaim (s.setCounter c 0 none) i (.leaving c)).claims = s.claims := claims_setClaim_same hc rfl
    cases hs
    constructor <;> simp only [↓hclaims, setClaim, setCounter] <;>
      grind -linarith [update]
  next => cases h

theorem Counted.leave (h : ownerStep s (.leave i) = some s') : Counted s' := by
  simp only [ownerStep] at h
  split at h
  next c hc =>
    split at h
    next hfree =>
      split at h
      next hmap =>
        cases h
        have hclaims : (setClaim { s with mapLock := some i } i (.removing c)).claims = s.claims :=
          claims_setClaim_same hc rfl
        have huncleared : ∀ c', (setClaim { s with mapLock := some i } i (.removing c)).uncleared c' =
            s.uncleared c' := fun c' => uncleared_setClaim (by simp [hc]) (by simp)
        cases hs
        constructor <;> simp only [↓hclaims, ↓huncleared, setClaim] <;>
          grind -linarith [update]
      next hmap =>
        cases h
        have hclaims : (s.setClaim i .finished).claims = s.claims := claims_setClaim_same hc rfl
        have huncleared : ∀ c', (s.setClaim i .finished).uncleared c' = s.uncleared c' := fun c' =>
          uncleared_setClaim (by simp [hc]) (by simp)
        cases hs
        constructor <;> simp only [↓hclaims, ↓huncleared, setClaim] <;>
          grind -linarith [update]
    next => cases h
  next => cases h

theorem Counted.remove (hg : Attended s (.remove i)) (h : ownerStep s (.remove i) = some s') : Counted s' := by
  simp only [ownerStep] at h
  split at h
  next c hc =>
    have hmap : s.streamClaims = some c := hs.attached (i := i) (by simp [hc, counter])
    have hmine : s.mapLock = some i := hs.mapLock.mpr (by simp [hc, holdsMap])
    rw [Attended, hc] at hg
    split at h
    next hfree =>
      cases h
      have hcount : (s.counters c).count = s.claims.card := by
        rw [hs.counted hmap, uncleared, hfree, Nat.add_zero]
      have hclaims : (setClaim { s with
          mapLock := none
          streamClaims := if (s.counters c).count = 0 then none else s.streamClaims } i .finished).claims = s.claims :=
        claims_setClaim_same hc rfl
      have huncleared : ∀ c', (setClaim { s with
          mapLock := none
          streamClaims := if (s.counters c).count = 0 then none else s.streamClaims } i .finished).uncleared c' =
          s.uncleared c' := fun c' => uncleared_setClaim (by simp [hc]) (by simp)
      by_cases hzero : (s.counters c).count = 0
      · have hempty : s.claims = ∅ := Finset.card_eq_zero.mp (by omega)
        -- whoever had the counter is in force, holds its lock, or waits for it
        have hnobody : ∀ {j c'}, j ≠ i → (s.claim j).counter ≠ some c' := by
          intro j c' hj hcounter
          have hc' : s.streamClaims = some c' := hs.attached hcounter
          have hout : j ∉ s.claims := by simp [hempty]
          have hunlocked : (s.claim j).locks ≠ some c := fun hlocks => by simp [hs.lock.mpr hlocks] at hfree
          have hbegun : j < s.begun := hs.begun_of fun hidle => by simp [hidle, counter] at hcounter
          have hremoving : ∀ c', s.claim j ≠ .removing c' := fun c' hremoving => by
            have hother : s.mapLock = some j := hs.mapLock.mpr (by simp [hremoving, holdsMap])
            exact hj (some.inj (hother.symm.trans hmine))
          rw [hs.mem_claims] at hout
          cases hphase : s.claim j <;> simp_all [counter, inForce, locks]
        cases hs
        constructor <;> simp only [↓hclaims, ↓huncleared, setClaim] <;>
          grind -linarith [update]
      · simp only [if_neg hzero] at hclaims huncleared ⊢
        cases hs
        constructor <;> simp only [↓hclaims, ↓huncleared, setClaim] <;>
          grind -linarith [update]
    next => cases h
  next => cases h

theorem Counted.setLease
    (hkeep : s.lease = some .this → (∃ j < s.begun, (s.claim j).leased = true) → lease = some .this) :
    Counted { s with lease } := by
  have howned : ∀ {i}, (s.claim i).leased = true → lease = some .this := by
    intro i hi
    refine hkeep (hs.owned hi) ⟨i, hs.begun_of fun hidle => ?_, hi⟩
    simp [hidle, leased] at hi
  exact { hs with owned := howned }

theorem counted_step {a : OwnerAct} (hg : Attended s a) (h : ownerStep s a = some s') : Counted s' := by
  cases a with
  | claim => exact hs.claim h
  | lockClaim i => exact hs.lockClaim h
  | tryAcquire i => exact hs.tryAcquire h
  | persistOwner i => exact hs.persistOwner h
  | fail i => exact hs.fail h
  | standby i => exact hs.standby h
  | release i => exact hs.release h
  | lockRelease i => exact hs.lockRelease h
  | releaseLease i => exact hs.releaseLease h
  | clear i => exact hs.clear h
  | leave i => exact hs.leave h
  | remove i => exact hs.remove hg h
  | otherAcquires n =>
    cases h
    refine hs.setLease fun hthis _ => ?_
    rw [tryAcquire_of_held hthis (by simp), hthis]
  | otherReleases n =>
    cases h
    refine hs.setLease fun hthis _ => ?_
    rw [releaseLease, if_neg (by simp [hthis]), hthis]
  | renew => exact some.inj h ▸ hs
  | expire =>
    cases h
    refine hs.setLease fun hthis ⟨j, hj, hleased⟩ => ?_
    rw [hg hthis j hj] at hleased
    cases hleased

end

theorem counted_start : Counted {} where
  idle _ _ := rfl
  attached h := by simp [counter] at h
  lock := by simp [locks]
  mapLock := by simp [holdsMap]
  counted h := by simp at h
  cleared h := by simp at h
  last h := by simp at h
  unclaimed _ := rfl
  owned h := by simp [leased] at h
  once := rfl

theorem counted_of_reach (h : Lts.Reach owners Attended {} s) : Counted s :=
  h.induct counted_start fun hs hg hstep => counted_step hs hg hstep

/-- While a claim is granted here and not released, the lease is held and no other primary gets it; and each time
that the last claim is gone, the lease has been released once. -/
structure OwnerDirectory.Held (s : OwnerDirectory) : Prop where
  kept : ∀ i, s.claim i = .granted → s.lease = some .this ∧ ∀ n, tryAcquire s.lease (.other n) = (.standby, some .this)
  once : s.releases + (if s.claims = ∅ then 0 else 1) = s.periods

/-- **Ownership is held until the last lane leaves**, in the runs in which no counter is removed under a claim that
waits for it. -/
theorem ownership_held (h : Lts.Reach owners Attended {} s) : s.Held := by
  have hs : Counted s := counted_of_reach h
  refine ⟨fun i hi => ?_, hs.once⟩
  have hthis : s.lease = some .this := hs.owned (by rw [hi]; rfl)
  exact ⟨hthis, fun n => by rw [tryAcquire_of_held hthis (by simp), hthis]⟩

/-- Two lanes share the lease, and another primary waits until both have left. -/
def sharedOwnership : List OwnerAct :=
  [.claim, .lockClaim 0, .tryAcquire 0, .persistOwner 0, .claim, .lockClaim 1, .tryAcquire 1, .persistOwner 1,
    .otherAcquires 5, .release 0, .lockRelease 0, .renew, .release 1, .lockRelease 1, .releaseLease 1, .clear 1,
    .leave 1, .remove 1, .otherAcquires 5]

theorem ownership_held_shared : ∃ s, owners.run Attended sharedOwnership {} = some s ∧ s.Held := by
  have hrun : (owners.run Attended sharedOwnership {}).isSome := by decide
  obtain ⟨s, hs⟩ := isSome_iff_exists.mp hrun
  exact ⟨s, hs, ownership_held (Lts.reach_of_run hs)⟩

/-- Claim 1 has cloned the counter that claim 0 removes, and claim 2 gets another one. The release of claim 1 then
counts down the counter of claim 2. -/
def orphanedCounter : List OwnerAct :=
  [.claim, .lockClaim 0, .tryAcquire 0, .persistOwner 0, .release 0, .lockRelease 0, .releaseLease 0, .clear 0,
    .claim, .leave 0, .remove 0, .lockClaim 1, .tryAcquire 1, .persistOwner 1,
    .claim, .lockClaim 2, .tryAcquire 2, .persistOwner 2, .release 1, .lockRelease 1, .releaseLease 1,
    .otherAcquires 5]

theorem orphaned_counter_loses_lease : ¬ ∀ s, Lts.Reach owners (fun s a => a = .expire → Attended s a) {} s → s.Held := by
  intro hheld
  have hrun : (owners.run (fun s a => a = .expire → Attended s a) orphanedCounter {}).map
      (fun s => (s.lease, s.claim 2)) = some (some (.other 5), .granted) := by decide
  obtain ⟨s, hs, hlease, hgranted⟩ := map_pair_eq_some hrun
  obtain ⟨hthis, -⟩ := (hheld s (Lts.reach_of_run hs)).kept 2 hgranted
  rw [hlease] at hthis
  cases hthis

end AsterDrive.Tunnel
