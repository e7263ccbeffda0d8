import AsterDrive.Locks.Exclusivity

/-!
# Expiry — locks that have timed out, and how many locks a user may hold

Expired rows stay in the table until somebody deletes them, and a refresh selects its row by token alone.
As long as nobody refreshes a row that has expired, a lock that has expired once never counts again:
`expired_stays`.

Only LOCK asks for the number of locks that its user holds. REST and WOPI locks count for their user as
well, but are not counted when they are taken; what stays below the limit are the locks that LOCK
itself took.
-/

namespace AsterDrive.Locks.Runs

open Db Files Interleave Webdav List Option Function

/-- LOCK has one limit over the whole run, and a refresh or a replacement selects a lock that has not
expired. -/
def RefreshesLive (maxActiveLocks : ℕ) (s : State) (_ : Unit) (a : Act) : Prop :=
  (match a with
    | .davLock request _ _ => request.maxActiveLocks = maxActiveLocks
    | _ => True) ∧
  ((selected s a).all fun l => !l.expired s.now) = true

instance (maxActiveLocks : ℕ) (s : State) (p : Unit) (a : Act) : Decidable (RefreshesLive maxActiveLocks s p a) := by
  cases a <;> exact inferInstanceAs (Decidable (_ ∧ _))

section

variable {backend : DbBackend} {normalizeName : String → String} {indexRefuses : Tree → Bool}
variable {s s' : State} {a : Act} {i maxActiveLocks : ℕ}

theorem RefreshesLive.live {l : ResourceLock} (hg : RefreshesLive maxActiveLocks s () a)
    (h : selected s a = some l) : l.expired s.now = false := by
  have := hg.2
  rw [h] at this
  simpa using this

/-! ### Expired locks -/

/-- The number was given to a lock, and if there is still a lock with that number it has expired. -/
def Dead (i : ℕ) (s : State) : Prop := i < s.db.locks.next ∧ ∀ l ∈ s.db.locks.rows, l.id = i → l.expired s.now = true

theorem dead_of_expired {l : ResourceLock} (hl : l ∈ s.db.locks.rows) (hexp : l.expired s.now = true) :
    Dead l.id s := by
  refine ⟨s.db.locks.below l hl, fun l' hl' hid => ?_⟩
  obtain rfl := Table.eq_of_key hl' hl hid
  exact hexp

theorem step_dead (hd : Dead i s) (hg : RefreshesLive maxActiveLocks s () a)
    (h : apply backend normalizeName indexRefuses s a = some s') : Dead i s' := by
  obtain ⟨hnext, hrows⟩ := hd
  cases step_effect h with
  | acquired hreq hprep hacq =>
    have hlocks := hprep.locks
    refine ⟨?_, fun l hl hid => ?_⟩
    · show i < _
      rw [hacq.next, hlocks]
      omega
    · rw [hacq.rows, hlocks] at hl
      rcases mem_append.mp hl with hl | hl
      · exact hrows l (mem_of_mem_filter hl) hid
      · -- the new lock has a new number
        have hnew : l.id = s.db.locks.next := by
          rw [mem_singleton.mp hl, hacq.lock, ← hlocks]
          rfl
        omega
  | released hrel =>
    obtain ⟨p, hp⟩ := hrel.rows
    refine ⟨by rw [hrel.next]; exact hnext, fun l hl hid => ?_⟩
    rw [hp] at hl
    exact hrows l (mem_of_mem_filter hl) hid
  | @retimed db' current ownerInfo timeoutAt hsel hmap hnext' hframe =>
    refine ⟨by rw [hnext']; exact hnext, fun l hl hid => ?_⟩
    rw [hmap] at hl
    obtain ⟨r, hr, rfl⟩ := List.mem_map.mp hl
    by_cases hcur : r.id = current.id
    · -- the row that is refreshed has not expired, so it is another one
      obtain rfl := Table.eq_of_key hr (selected_mem hsel) hcur
      have hrid : r.id = i := by simpa [retime] using hid
      have hexp := hrows r hr hrid
      rw [hg.live hsel] at hexp
      cases hexp
    · have hkeep : (if decide (r.id = current.id) then retime ownerInfo timeoutAt r else r) = r := by
        simp [hcur]
      rw [hkeep] at hid ⊢
      exact hrows r hr hid
  | moved hmoved =>
    refine ⟨by rw [hmoved.locks]; exact hnext, fun l hl hid => ?_⟩
    rw [hmoved.locks] at hl
    exact hrows l hl hid
  | advanced hle => exact ⟨hnext, fun l hl hid => ResourceLock.expired_mono (hrows l hl hid) hle⟩

/-! ### Counting -/

/-- How many locks that have not expired meet a filter. -/
def activeCount (s : State) (q : ResourceLock → Bool) : ℕ := s.db.locks.rows.countP fun l => q l && !l.expired s.now

/-- Held by a user. -/
def heldBy (u : ℕ) (l : ResourceLock) : Bool := decide (l.holderUserId = some u)

/-- Held by a user, and taken by LOCK. -/
def davHeldBy (u : ℕ) (l : ResourceLock) : Bool := heldBy u l && decide (l.origin = .webDav)

theorem countActiveByOwner_eq (s : State) (u : ℕ) :
    countActiveByOwner s.db.toLockTables u s.now = activeCount s (heldBy u) := rfl

theorem davHeldBy_le (s : State) (u : ℕ) : activeCount s (davHeldBy u) ≤ activeCount s (heldBy u) := by
  refine countP_mono_left fun l _ hl => ?_
  simp only [davHeldBy, Bool.and_eq_true] at hl ⊢
  exact ⟨hl.1.1, hl.2⟩

theorem step_activeCount {q : ResourceLock → Bool}
    (hq : ∀ ownerInfo timeoutAt l, q (retime ownerInfo timeoutAt l) = q l)
    (hg : RefreshesLive maxActiveLocks s () a)
    (h : apply backend normalizeName indexRefuses s a = some s') :
    activeCount s' q ≤ activeCount s q ∨
      ∃ ns db1 command token i, requested backend normalizeName s a = some (ns, db1, command) ∧
        q (command.row ns.id token s.now i) ∧ activeCount s' q ≤ activeCount s q + 1 := by
  unfold activeCount
  cases step_effect h with
  | @acquired ns db1 db' command token row hreq hprep hacq =>
    have hcount : db'.locks.rows.countP (fun l => q l && !l.expired s.now) ≤
        s.db.locks.rows.countP (fun l => q l && !l.expired s.now) + [row].countP fun l => q l && !l.expired s.now := by
      rw [hacq.rows, hprep.locks, countP_append]
      exact Nat.add_le_add_right (List.filter_sublist.countP_le) _
    by_cases hrow : q row = true
    · rw [hacq.lock] at hrow
      refine .inr ⟨ns, db1, command, token, _, hreq, hrow, hcount.trans ?_⟩
      exact Nat.add_le_add_left countP_le_length _
    · left
      simpa [hrow] using hcount
  | released hrel =>
    obtain ⟨p, hp⟩ := hrel.rows
    left
    rw [hp]
    exact List.filter_sublist.countP_le
  | @retimed db' current ownerInfo timeoutAt hsel hmap _ _ =>
    left
    rw [hmap, countP_map]
    refine countP_mono_left fun l hl hcounts => ?_
    by_cases hcur : l.id = current.id
    · obtain rfl := Table.eq_of_key hl (selected_mem hsel) hcur
      have hlive := hg.live hsel
      simp only [comp_apply, decide_true, if_true, hq, Bool.and_eq_true] at hcounts
      simp [hcounts.1, hlive]
    · simpa [hcur] using hcounts
  | moved hmoved =>
    left
    rw [hmoved.locks]
  | advanced hle =>
    left
    refine countP_mono_left fun l _ hcounts => ?_
    simp only [Bool.and_eq_true, Bool.not_eq_true'] at hcounts ⊢
    refine ⟨hcounts.1, ?_⟩
    by_contra hexp
    have hlater := ResourceLock.expired_mono (Bool.eq_true_of_not_eq_false hexp) hle
    rw [hcounts.2] at hlater
    cases hlater

/-! ### The limit of LOCK -/

/-- Only LOCK asks for a lock of the WebDAV origin, and it has counted the locks of its user. -/
theorem requested_dav {ns : ResourceLockNamespace} {db1 : LockDb} {command : LockAcquireCommand}
    (h : requested backend normalizeName s a = some (ns, db1, command)) (horigin : command.origin = .webDav) :
    ∃ r prepared token, a = .davLock r prepared token ∧ command.holderUserId = some (actorUserId r.scope) ∧
      activeCount s (heldBy (actorUserId r.scope)) < r.maxActiveLocks := by
  have hok : ∀ {ε α : Type} {x : Except ε α} {y : α}, x.toOption = some y → x = .ok y := by
    intro ε α x y hx
    cases x with
    | error e => simp [Except.toOption] at hx
    | ok z => simpa [Except.toOption] using hx
  cases a with
  | lock entityType entityId actorUserId token | wopiLock fileId actorUserId appKey value ttl token =>
    obtain ⟨⟨-, horigin', -⟩, -⟩ := prepareLock_ok (hok h)
    rw [horigin] at horigin'
    cases horigin'
  | davLock r prepared token =>
    obtain ⟨-, -, ⟨hholder, -⟩, hcount⟩ := prepareDavLock_ok (hok h)
    exact ⟨r, prepared, token, rfl, hholder, hcount⟩
  | treeLock workspace folderId marker path token =>
    obtain ⟨rfl, -⟩ := prepareAcquire_ok (hok h)
    cases horigin
  | _ => cases h

theorem heldBy_retime (u : ℕ) (ownerInfo : Option ResourceLockOwnerInfo) (timeoutAt : Option ℕ)
    (l : ResourceLock) : heldBy u (retime ownerInfo timeoutAt l) = heldBy u l := rfl

theorem davHeldBy_retime (u : ℕ) (ownerInfo : Option ResourceLockOwnerInfo) (timeoutAt : Option ℕ)
    (l : ResourceLock) : davHeldBy u (retime ownerInfo timeoutAt l) = davHeldBy u l := rfl

theorem step_quota (hs : ∀ u, activeCount s (davHeldBy u) ≤ maxActiveLocks) (hg : RefreshesLive maxActiveLocks s () a)
    (h : apply backend normalizeName indexRefuses s a = some s') (u : ℕ) :
    activeCount s' (davHeldBy u) ≤ maxActiveLocks := by
  rcases step_activeCount (davHeldBy_retime u) hg h with hle | ⟨ns, db1, command, token, i, hreq, hrow, hle⟩
  · exact hle.trans (hs u)
  · -- one more for the user of a LOCK, who had fewer than the limit
    obtain ⟨hheld, hdav⟩ := Bool.and_eq_true_iff.mp hrow
    obtain ⟨r, prepared, token', rfl, hholder, hcount⟩ := requested_dav hreq (of_decide_eq_true hdav)
    obtain rfl : actorUserId r.scope = u := some.inj (hholder.symm.trans (of_decide_eq_true hheld))
    have hmax : r.maxActiveLocks = maxActiveLocks := hg.1
    have hbelow := davHeldBy_le s (actorUserId r.scope)
    omega

end

/-- **Expired locks stay dead, and LOCK keeps its limit.** In every run in which refreshes and
replacements select locks that have not expired: a lock that has expired stays so; after a LOCK its user
holds no more locks than the limit; and after a refresh the holder's locks that LOCK took are within the
limit, and all locks of the holder are no more than before. -/
theorem expired_stays_and_limit_kept (backend : DbBackend) (normalizeName : String → String)
    (indexRefuses : Tree → Bool) (maxActiveLocks : ℕ) (s : State)
    (hs : ∀ u, activeCount s (davHeldBy u) ≤ maxActiveLocks) (c : Config State Unit)
    (h : Interleave.Reach (system backend normalizeName indexRefuses) (RefreshesLive maxActiveLocks) (start s) c) :
    (∀ c', Interleave.Reach (system backend normalizeName indexRefuses) (RefreshesLive maxActiveLocks) c c' →
      ∀ l ∈ c.shared.db.locks.rows, l.expired c.shared.now = true →
        ∀ l' ∈ c'.shared.db.locks.rows, l'.id = l.id → l'.expired c'.shared.now = true) ∧
    (∀ r prepared token s', r.maxActiveLocks = maxActiveLocks →
      apply backend normalizeName indexRefuses c.shared (.davLock r prepared token) = some s' →
        countActiveByOwner s'.db.toLockTables (actorUserId r.scope) s'.now ≤ maxActiveLocks) ∧
    ∀ path token timeout l u s', c.shared.db.findByToken token = some l →
      l.expired c.shared.now = false → l.holderUserId = some u →
      apply backend normalizeName indexRefuses c.shared (.davRefresh path token timeout) = some s' →
        activeCount s' (davHeldBy u) ≤ maxActiveLocks ∧ countActiveByOwner s'.db.toLockTables u s'.now ≤
            countActiveByOwner c.shared.db.toLockTables u c.shared.now := by
  have hquota : ∀ u, activeCount c.shared (davHeldBy u) ≤ maxActiveLocks :=
    h.induct (I := fun c => ∀ u, activeCount c.shared (davHeldBy u) ≤ maxActiveLocks) hs
      fun hc hg hf => step_quota hc hg (apply_of_fire hf)
  refine ⟨fun c' h' l hl hexp => ?_, fun r prepared token s' hmax hstep => ?_, ?_⟩
  · have hdead : Dead l.id c'.shared :=
      h'.induct (I := fun c => Dead l.id c.shared) (dead_of_expired hl hexp)
        fun hc hg hf => step_dead hc hg (apply_of_fire hf)
    exact hdead.2
  · have hg : RefreshesLive maxActiveLocks c.shared () (.davLock r prepared token) := ⟨hmax, rfl⟩
    rw [countActiveByOwner_eq]
    -- the count before was below the limit
    obtain ⟨row, db', hlock, -⟩ := commitRow_eq_some hstep
    obtain ⟨⟨ns, db1, command⟩, hprep, -⟩ := bind_ok hlock
    obtain ⟨-, -, -, hcount⟩ := prepareDavLock_ok hprep
    rw [countActiveByOwner_eq, hmax] at hcount
    rcases step_activeCount (heldBy_retime (actorUserId r.scope)) hg hstep with
      hle | ⟨_, _, _, _, _, _, _, hle⟩
    · omega
    · omega
  · intro path token timeout l u s' hfind hlive _ hstep
    have hg : RefreshesLive maxActiveLocks c.shared () (.davRefresh path token timeout) :=
      ⟨trivial, by simp [selected, hfind, hlive]⟩
    refine ⟨step_quota hquota hg hstep u, ?_⟩
    rcases step_activeCount (heldBy_retime u) hg hstep with hle | ⟨_, _, _, _, _, hreq, _, _⟩
    · exact hle
    · cases hreq

/-- LOCK of a path through the mount of the workspace, under a limit. -/
def limitedLock (maxActiveLocks : ℕ) (path : String) (timeout : ℕ) (token : String) : Act :=
  .davLock
    { scope := .personal 7, rootFolderId := none, path, ownerInfo := none, timeout := some timeout
      shared := false, deep := false, submittedLockTokens := [], maxActiveLocks }
    none token

/-- Two locks, of which one has expired when the other is refreshed. -/
theorem expired_stays_while_refreshed :
    ∃ c c', Interleave.Reach (system .sqlite id fun _ => false) (RefreshesLive 2) (start docsAndFiles) c ∧
      Interleave.Reach (system .sqlite id fun _ => false) (RefreshesLive 2) c c' ∧
      c.shared.db.locks.rows.map (fun l => l.expired c.shared.now) = [true, false] ∧
      c'.shared.db.locks.rows.map ResourceLock.timeoutAt = [some 10, some 120] ∧
      ∀ l ∈ c.shared.db.locks.rows, l.expired c.shared.now = true →
        ∀ l' ∈ c'.shared.db.locks.rows, l'.id = l.id → l'.expired c'.shared.now = true := by
  have hrun : ((system .sqlite id fun _ => false).run (RefreshesLive 2) (start docsAndFiles)
      [(0, limitedLock 2 "/b.txt" 10 "s"), (0, limitedLock 2 "/docs/a.txt" 3600 "t"), (0, .advance 20)]).map
        (fun c => c.shared.db.locks.rows.map fun l => l.expired c.shared.now) = some [true, false] := by
    decide
  have hrun' : (((system .sqlite id fun _ => false).run (RefreshesLive 2) (start docsAndFiles)
      [(0, limitedLock 2 "/b.txt" 10 "s"), (0, limitedLock 2 "/docs/a.txt" 3600 "t"), (0, .advance 20)]).bind
        fun c => (system .sqlite id fun _ => false).run (RefreshesLive 2) c
          [(0, .davRefresh "/docs/a.txt" "t" (some 100))]).map
        (fun c => c.shared.db.locks.rows.map ResourceLock.timeoutAt) = some [some 10, some 120] := by
    decide
  obtain ⟨c, hc, hexp⟩ := map_eq_some_iff.mp hrun
  obtain ⟨c', hc', hrows⟩ := map_eq_some_iff.mp hrun'
  rw [hc, bind_some] at hc'
  have hreach := run_reach hc
  have hreach' := run_reach hc'
  have hstart : ∀ u, activeCount docsAndFiles (davHeldBy u) ≤ 2 := fun u => Nat.zero_le _
  exact ⟨c, c', hreach, hreach', hexp, hrows,
    (expired_stays_and_limit_kept .sqlite id (fun _ => false) 2 docsAndFiles hstart c hreach).1 c' hreach'⟩

/-- The limit is one. The user takes a lock with LOCK and a second one in the product, which asks for no
limit, and refreshes the first: two locks that have not expired. -/
theorem limit_exceeded_after_refresh :
    ∃ c s', Interleave.Reach (system .sqlite id fun _ => false) (RefreshesLive 1) (start docsAndFiles) c ∧
      (c.shared.db.findByToken "s").map ResourceLock.holderUserId = some (some 7) ∧
      apply .sqlite id (fun _ => false) c.shared (.davRefresh "/b.txt" "s" (some 100)) = some s' ∧
      ¬ countActiveByOwner s'.db.toLockTables 7 s'.now ≤ 1 := by
  have hrun : ((system .sqlite id fun _ => false).run (RefreshesLive 1) (start docsAndFiles)
      [(0, limitedLock 1 "/b.txt" 10 "s"), (0, .lock .file 1 7 "t")]).map
        (fun c => ((c.shared.db.findByToken "s").map ResourceLock.holderUserId,
          (apply .sqlite id (fun _ => false) c.shared (.davRefresh "/b.txt" "s" (some 100))).map
            fun s' => countActiveByOwner s'.db.toLockTables 7 s'.now)) =
      some (some (some 7), some 2) := by
    decide
  obtain ⟨c, hc, hholder, hafter⟩ := map_pair_eq_some hrun
  obtain ⟨s', hs', hcount⟩ := map_eq_some_iff.mp hafter
  refine ⟨c, s', run_reach hc, hholder, hs', ?_⟩
  rw [hcount]
  decide

end AsterDrive.Locks.Runs
