import AsterDrive.Lib.Decimal
import AsterDrive.Lib.Interleave
import AsterDrive.Lib.Separated
import AsterDrive.Locks.Lifecycle

/-!
# Projection — the cached lock rows of a namespace

`load_cached_locks`, one statement and one cache call at a time. A reader comes with a generation that
its caller read some time before. It takes the rows from the cache entry of that generation or loads
them and writes the entry, and only then it asks for the generation again; after two rounds it gives up
on the cache. The entry of a generation may therefore hold rows that are newer than the generation, and
it is written although the recheck may fail.

Writers commit anything that is `Newer`. `past` is a ghost, the committed states in their order, and a
reader keeps the times at which it was called and at which it returned.

Main result: `loadCachedLocks_current`, the rows that a reader returns are those of a state that was
current while it ran.
-/

namespace AsterDrive.Locks.Projection

open Db Interleave List Option Function

/-- `CachedLockProjection`. -/
structure CachedLockProjection where
  root : LockRoot
  depth : LockDepth
  mode : LockMode
  expiresAt : Option ℕ

/-- `From<resource_lock::Model>`. -/
def CachedLockProjection.ofLock (l : ResourceLock) : CachedLockProjection :=
  { root := l.root, depth := l.depth, mode := l.mode, expiresAt := l.timeoutAt }

/-- The rows of a namespace, as they are cached. -/
def projectionOf (d : LockTables) (namespaceId : ℕ) : List CachedLockProjection :=
  (d.findAllByNamespace namespaceId).map .ofLock

def lockProjectionCachePrefix : String := "resource_lock_projection:"

/-- The key of the entry for a namespace and a generation. -/
def cacheKey (namespaceId generation : ℕ) : String :=
  lockProjectionCachePrefix ++ (namespaceId.repr ++ (":" ++ generation.repr))

theorem cacheKey_inj {n n' g g' : ℕ} (h : cacheKey n g = cacheKey n' g') : n = n' ∧ g = g' := by
  have h := congrArg String.toList h
  simp only [cacheKey, String.toList_append, append_cancel_left_eq] at h
  obtain ⟨hn, hg⟩ := Separated.cut_unique (Decimal.notMem_repr rfl) (Decimal.notMem_repr rfl) h
  exact ⟨Decimal.repr_inj hn, Decimal.repr_inj hg⟩

/-! ### The system -/

structure Shared where
  db : LockTables
  cache : String → Option (List CachedLockProjection)
  past : List LockTables

/-- How many commits there were. -/
def Shared.now (s : Shared) : ℕ := s.past.length

/-- The committed state at a time. -/
def Shared.at (s : Shared) (time : ℕ) : Option LockTables := (s.past ++ [s.db])[time]?

/-- A reader, between two of its statements. `since` is when it was called, and `attempts` how many
rounds are left after this one. -/
inductive Reader
  | idle
  | ready (namespaceId generation : ℕ)
  | attempt (namespaceId generation attempts since : ℕ)
  | missed (namespaceId generation attempts since : ℕ)
  | loaded (namespaceId generation attempts since : ℕ) (locks : List CachedLockProjection)
  | recheck (namespaceId generation attempts since : ℕ) (locks : List CachedLockProjection)
  | fallback (namespaceId since : ℕ)
  | fallbackRows (namespaceId since : ℕ)
  | returned (namespaceId since til : ℕ) (locks : List CachedLockProjection)

inductive Choice
  | lookup (w : WorkspaceResourceScope)
  | next
  | fail
  | commit (db : LockTables)
  | drop (key : String)

/-- What a reader does after it asked for the generation again. -/
def afterRecheck (s : Shared) (n g attempts since : ℕ) (locks : List CachedLockProjection) : Reader :=
  match (s.db.namespaces.get n).map ResourceLockNamespace.generation with
  | none => .returned n since s.now []
  | some current =>
    if current = g then .returned n since s.now locks
    else match attempts with
      | 0 => .fallback n since
      | attempts + 1 => .attempt n current attempts since

/-- The next statement of `load_cached_locks`. -/
def advance (s : Shared) : Reader → Option (Shared × Reader)
  | .ready n g => some (s, .attempt n g 1 s.now)
  | .attempt n g k since =>
    match s.cache (cacheKey n g) with
    | some cached => some (s, .recheck n g k since cached)
    | none => some (s, .missed n g k since)
  | .missed n g k since => some (s, .loaded n g k since (projectionOf s.db n))
  | .loaded n g k since locks =>
    some ({ s with cache := Function.update s.cache (cacheKey n g) (some locks) }, .recheck n g k since locks)
  | .recheck n g k since locks => some (s, afterRecheck s n g k since locks)
  | .fallback n since =>
    match s.db.namespaces.get n with
    | none => some (s, .returned n since s.now [])
    | some _ => some (s, .fallbackRows n since)
  | .fallbackRows n since => some (s, .returned n since s.now (projectionOf s.db n))
  | .idle | .returned .. => none

/-- `load_for_scope` looks the namespace up and calls `load_cached_locks`; a failed statement ends the
call without a result. Writers and the loss of cache entries are not tied to a reader. -/
def step (a : Choice) (s : Shared) (p : Reader) : Option (Shared × Reader) :=
  match a with
  | .lookup w =>
    match p, s.db.namespaces.findByWorkspace w with
    | .idle, some ns => some (s, .ready ns.id ns.generation)
    | _, _ => none
  | .next => advance s p
  | .fail => some (s, .idle)
  | .commit db => some ({ s with db, past := s.past ++ [s.db] }, p)
  | .drop key => some ({ s with cache := Function.update s.cache key none }, p)

def system : System Shared Reader Choice := ⟨step⟩

/-- Writers change lock rows only together with the generation of their namespace. -/
def WritersBump (s : Shared) (_ : Reader) : Choice → Prop
  | .commit db => Newer s.db db
  | _ => True

/-- Nothing is cached and nobody reads yet. -/
def start (d : LockTables) : Config Shared Reader :=
  { shared := { db := d, cache := fun _ => none, past := [] }, proc := fun _ => .idle }

/-! ### What a reader knows -/

/-- The namespace once had this generation. -/
def Seen (d : LockTables) (n g : ℕ) : Prop := ∃ d₀, Newer d₀ d ∧ ∃ r, d₀.namespaces.get n = some r ∧ r.generation = g

/-- The rows of the namespace as they once were, when its generation was `g` or later. -/
def Stamped (d : LockTables) (n g : ℕ) (locks : List CachedLockProjection) : Prop :=
  ∃ d₀, Newer d₀ d ∧ n < d₀.namespaces.next ∧ locks = projectionOf d₀ n ∧
    ∀ r, d₀.namespaces.get n = some r → g ≤ r.generation

/-- The rows of the namespace at a time between `since` and `til`. -/
def Current (s : Shared) (n since til : ℕ) (locks : List CachedLockProjection) : Prop :=
  ∃ k d, since ≤ k ∧ k ≤ til ∧ s.at k = some d ∧ locks = projectionOf d n

section

variable {d d' : LockTables} {s s' : Shared} {n g since til : ℕ} {locks : List CachedLockProjection}

theorem Seen.newer (h : Seen d n g) (hnew : Newer d d') : Seen d' n g := by
  obtain ⟨d₀, hd₀, hr⟩ := h
  exact ⟨d₀, hd₀.trans hnew, hr⟩

theorem Stamped.newer (h : Stamped d n g locks) (hnew : Newer d d') : Stamped d' n g locks := by
  obtain ⟨d₀, hd₀, hrest⟩ := h
  exact ⟨d₀, hd₀.trans hnew, hrest⟩

theorem Seen.stamped (h : Seen d n g) : Stamped d n g (projectionOf d n) := by
  obtain ⟨d₀, hd₀, r, hr, rfl⟩ := h
  have hn : n < d₀.namespaces.next := SerialTable.lt_next_of_get hr
  refine ⟨d, .refl d, hn.trans_le hd₀.next, rfl, fun r' hr' => ?_⟩
  obtain ⟨r₀, hr₀, hle, -⟩ := hd₀.kept n r' hr' hn
  obtain rfl : r = r₀ := some.inj (hr.symm.trans hr₀)
  exact hle

/-- Rows that are no older than `g` are the current ones if `g` is the current generation. -/
theorem Stamped.current (h : Stamped d n g locks) {r : ResourceLockNamespace}
    (hr : d.namespaces.get n = some r) (hg : r.generation = g) : locks = projectionOf d n := by
  obtain ⟨d₀, hd₀, hn, rfl, hge⟩ := h
  obtain ⟨r₀, hr₀, hle, hsame⟩ := hd₀.kept n r hr hn
  have hgen : r₀.generation = r.generation := by
    have := hge r₀ hr₀
    omega
  unfold projectionOf
  rw [hsame hgen]

theorem Shared.at_now (s : Shared) : s.at s.now = some s.db := by
  simp [Shared.at, Shared.now]

theorem Current.of_now (hsince : since ≤ s.now) (h : locks = projectionOf s.db n) : Current s n since s.now locks :=
  ⟨s.now, s.db, hsince, le_rfl, s.at_now, h⟩

theorem Current.commit (h : Current s n since til locks) (d : LockTables) :
    Current { s with db := d, past := s.past ++ [s.db] } n since til locks := by
  obtain ⟨k, d₀, hsince, htil, hat, hlocks⟩ := h
  refine ⟨k, d₀, hsince, htil, ?_, hlocks⟩
  unfold Shared.at at hat ⊢
  rw [getElem?_append_left (List.getElem?_eq_some_iff.mp hat).1]
  exact hat

/-- The cache only holds rows that are no older than the generation they stand under. -/
def CacheStamped (s : Shared) : Prop := ∀ n g locks, s.cache (cacheKey n g) = some locks → Stamped s.db n g locks

/-- What holds of a reader between its statements. -/
def Knows (s : Shared) : Reader → Prop
  | .idle => True
  | .ready n g => Seen s.db n g
  | .attempt n g _ since | .missed n g _ since => Seen s.db n g ∧ since ≤ s.now
  | .loaded n g _ since locks | .recheck n g _ since locks => Stamped s.db n g locks ∧ since ≤ s.now
  | .fallback _ since | .fallbackRows _ since => since ≤ s.now
  | .returned n since til locks => Current s n since til locks

theorem Knows.commit {p : Reader} (h : Knows s p) (hnew : Newer s.db d) :
    Knows { s with db := d, past := s.past ++ [s.db] } p := by
  have hnow : ∀ {t}, t ≤ s.now → t ≤ (s.past ++ [s.db]).length := by
    intro t ht
    rw [length_append]
    exact ht.trans (Nat.le_add_right _ _)
  cases p with
  | idle => trivial
  | ready n g => exact Seen.newer h hnew
  | attempt n g k since | missed n g k since => exact ⟨Seen.newer h.1 hnew, hnow h.2⟩
  | loaded n g k since locks | recheck n g k since locks => exact ⟨Stamped.newer h.1 hnew, hnow h.2⟩
  | fallback n since | fallbackRows n since => exact hnow h
  | returned n since til locks => exact Current.commit h d

theorem Knows.cache {p : Reader} (h : Knows s p) (cache : String → Option (List CachedLockProjection)) :
    Knows { s with cache } p := by
  cases p <;> exact h

theorem knows_afterRecheck {k : ℕ} (hlocks : Stamped s.db n g locks) (hsince : since ≤ s.now) :
    Knows s (afterRecheck s n g k since locks) := by
  unfold afterRecheck
  cases hr : s.db.namespaces.get n with
  | none =>
    refine Current.of_now hsince ?_
    unfold projectionOf
    rw [LockTables.findAllByNamespace_eq_nil hr]
    rfl
  | some r =>
    simp only [map_some]
    split_ifs with hg
    · exact Current.of_now hsince (hlocks.current hr hg)
    · cases k with
      | zero => exact hsince
      | succ k => exact ⟨⟨s.db, .refl _, r, hr, rfl⟩, hsince⟩

theorem advance_knows {p p' : Reader} (hcache : CacheStamped s) (hp : Knows s p)
    (h : advance s p = some (s', p')) : CacheStamped s' ∧ Knows s' p' ∧ s'.db = s.db ∧ s'.past = s.past := by
  cases p with
  | idle | returned n since til locks => simp [advance] at h
  | ready n g =>
    obtain ⟨rfl, rfl⟩ : s = s' ∧ _ = p' := by simpa [advance] using h
    exact ⟨hcache, ⟨hp, le_rfl⟩, rfl, rfl⟩
  | attempt n g k since =>
    simp only [advance] at h
    split at h
    · rename_i cached hcached
      obtain ⟨rfl, rfl⟩ : s = s' ∧ _ = p' := by simpa using h
      exact ⟨hcache, ⟨hcache n g cached hcached, hp.2⟩, rfl, rfl⟩
    · obtain ⟨rfl, rfl⟩ : s = s' ∧ _ = p' := by simpa using h
      exact ⟨hcache, hp, rfl, rfl⟩
  | missed n g k since =>
    obtain ⟨rfl, rfl⟩ : s = s' ∧ _ = p' := by simpa [advance] using h
    exact ⟨hcache, ⟨hp.1.stamped, hp.2⟩, rfl, rfl⟩
  | loaded n g k since locks =>
    obtain ⟨rfl, rfl⟩ : _ = s' ∧ _ = p' := by simpa [advance] using h
    refine ⟨fun n' g' locks' hlocks' => ?_, hp, rfl, rfl⟩
    -- the entry that was just written, or one that stood there before
    dsimp only at hlocks'
    by_cases hkey : cacheKey n' g' = cacheKey n g
    · obtain ⟨rfl, rfl⟩ := cacheKey_inj hkey
      rw [update_self] at hlocks'
      cases hlocks'
      exact hp.1
    · rw [update_of_ne hkey] at hlocks'
      exact hcache n' g' locks' hlocks'
  | recheck n g k since locks =>
    obtain ⟨rfl, rfl⟩ : s = s' ∧ _ = p' := by simpa [advance] using h
    exact ⟨hcache, knows_afterRecheck hp.1 hp.2, rfl, rfl⟩
  | fallback n since =>
    simp only [advance] at h
    split at h
    · rename_i hr
      obtain ⟨rfl, rfl⟩ : s = s' ∧ _ = p' := by simpa using h
      refine ⟨hcache, Current.of_now hp ?_, rfl, rfl⟩
      unfold projectionOf
      rw [LockTables.findAllByNamespace_eq_nil hr]
      rfl
    · obtain ⟨rfl, rfl⟩ : s = s' ∧ _ = p' := by simpa using h
      exact ⟨hcache, hp, rfl, rfl⟩
  | fallbackRows n since =>
    obtain ⟨rfl, rfl⟩ : s = s' ∧ _ = p' := by simpa [advance] using h
    exact ⟨hcache, Current.of_now hp rfl, rfl, rfl⟩

/-- A step keeps what the cache promises, what its reader knows, and what the others know. -/
theorem step_knows {a : Choice} {p p' : Reader} (hcache : CacheStamped s) (hp : Knows s p)
    (hguard : WritersBump s p a) (h : step a s p = some (s', p')) :
    CacheStamped s' ∧ Knows s' p' ∧ ∀ q, Knows s q → Knows s' q := by
  cases a with
  | lookup w =>
    simp only [step] at h
    split at h
    · rename_i ns hns
      obtain ⟨rfl, rfl⟩ : s = s' ∧ _ = p' := by simpa using h
      have hget := (Namespaces.findByWorkspace_eq_some hns).1
      exact ⟨hcache, ⟨s.db, .refl _, ns, hget, rfl⟩, fun q hq => hq⟩
    · cases h
  | next =>
    obtain ⟨hcache', hp', hdb, hpast⟩ := advance_knows hcache hp h
    refine ⟨hcache', hp', fun q hq => ?_⟩
    obtain ⟨db', cache', past'⟩ := s'
    obtain ⟨rfl, rfl⟩ : db' = s.db ∧ past' = s.past := ⟨hdb, hpast⟩
    exact hq.cache cache'
  | fail =>
    obtain ⟨rfl, rfl⟩ : s = s' ∧ _ = p' := by simpa [step] using h
    exact ⟨hcache, trivial, fun q hq => hq⟩
  | commit db =>
    obtain ⟨rfl, rfl⟩ : _ = s' ∧ p = p' := by simpa [step] using h
    refine ⟨fun n g locks hlocks => ?_, hp.commit hguard, fun q hq => hq.commit hguard⟩
    exact (hcache n g locks hlocks).newer hguard
  | drop key =>
    obtain ⟨rfl, rfl⟩ : _ = s' ∧ p = p' := by simpa [step] using h
    refine ⟨fun n g locks hlocks => ?_, hp.cache _, fun q hq => hq.cache _⟩
    dsimp only at hlocks
    by_cases hkey : cacheKey n g = key
    · simp [hkey] at hlocks
    · rw [update_of_ne hkey] at hlocks
      exact hcache n g locks hlocks

end

/-- **The rows that `load_cached_locks` returns are never stale**: they are those of a state that was
committed between the call and its end. -/
theorem loadCachedLocks_current {d : LockTables} {c : Config Shared Reader}
    (h : Interleave.Reach system WritersBump (start d) c) {i n since til : ℕ}
    {locks : List CachedLockProjection} (hi : c.proc i = .returned n since til locks) :
    ∃ k d', since ≤ k ∧ k ≤ til ∧ c.shared.at k = some d' ∧ locks = projectionOf d' n := by
  have hstart : Holds CacheStamped Knows (fun _ _ => True) (start d) := by
    refine ⟨?_, fun _ => trivial, fun _ _ _ => trivial⟩
    intro n g locks hlocks
    cases hlocks
  have hall : Holds CacheStamped Knows (fun _ _ => True) c := by
    refine h.owicki ?_ ?_ hstart
    · intro s s' p p' a hs hp hg hstep
      obtain ⟨hs', hp', -⟩ := step_knows hs hp hg hstep
      exact ⟨hs', hp'⟩
    · intro s s' p p' q a hs hp hq _ _ hg hstep
      obtain ⟨-, -, hothers⟩ := step_knows hs hp hg hstep
      exact ⟨hothers q hq, trivial, trivial⟩
  have hknows := hall.each i
  rw [hi] at hknows
  exact hknows

/-- A workspace with one file and no locks. -/
def noLocks : LockDb where
  namespaces :=
    { rows := [⟨1, .personal 7, 0⟩]
      unique := by decide
      next := 2
      below := by decide
      oneEach := by decide }
  locks := .empty
  owned := fun _ h => nomatch h
  tree :=
    { folders := .empty
      files :=
        { rows := [⟨1, some 7, none, none, "a.txt", 1, 0, "text/plain", 0, none⟩]
          unique := by decide
          next := 2
          below := by decide } }
  users := [7]
  teams := []

/-- The tables after the file was locked. -/
def afterLock : LockTables :=
  match lock noLocks .file 1 (some 7) none none "t" 0 with
  | .ok (_, db) => db.toLockTables
  | .error _ => noLocks.toLockTables

theorem newer_afterLock : Newer noLocks.toLockTables afterLock := by
  unfold afterLock
  split
  · rename_i row db hlock
    obtain ⟨⟨ns, db1, command⟩, hprep, hacq⟩ := bind_ok hlock
    obtain ⟨-, hget, -, -, hnewer⟩ := prepareLock_ok hprep
    exact hnewer.trans (acquireAfterNamespaceLockOn_ok hget hacq).newer
  · exact .refl _

/-- A writer comes between the miss and the load. The rows are cached under the old generation, the
recheck fails, and the second round returns the new rows. -/
theorem loadCachedLocks_current_overtaken : ∃ c, Interleave.Reach system WritersBump (start noLocks.toLockTables) c ∧
      c.proc 0 = .returned 1 0 1 [⟨.file 1, .resource, .exclusive, none⟩] ∧
      ∃ k d', 0 ≤ k ∧ k ≤ 1 ∧ c.shared.at k = some d' ∧
        [⟨.file 1, .resource, .exclusive, none⟩] = projectionOf d' 1 := by
  have hstart : Interleave.Reach system WritersBump (start noLocks.toLockTables) (start noLocks.toLockTables) := .refl
  have hmissed := (hstart.step (i := 0) (a := Choice.lookup (.personal 7)) trivial rfl).step
    (i := 0) (a := Choice.next) trivial rfl |>.step (i := 0) (a := Choice.next) trivial rfl
  have hcommit := hmissed.step (i := 1) (a := Choice.commit afterLock) newer_afterLock rfl
  have hloaded := (hcommit.step (i := 0) (a := Choice.next) trivial rfl).step (i := 0) (a := Choice.next) trivial rfl
  have hround := ((hloaded.step (i := 0) (a := Choice.next) trivial rfl).step
    (i := 0) (a := Choice.next) trivial rfl).step (i := 0) (a := Choice.next) trivial rfl
  have hdone := (hround.step (i := 0) (a := Choice.next) trivial rfl).step (i := 0) (a := Choice.next) trivial rfl
  exact ⟨_, hdone, rfl, loadCachedLocks_current hdone (i := 0) rfl⟩

end AsterDrive.Locks.Projection
