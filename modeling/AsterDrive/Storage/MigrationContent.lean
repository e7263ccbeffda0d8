import AsterDrive.Storage.MigrationKept

/-!
# Storage/MigrationContent — no content is lost while what was seen still holds

The steps of stores, deletions and cleanups beside a migration, and the theorem about all of them: `Intact` holds in
every state of a run whose steps all meet `StillHolds`. Without the guard it does not: a copy is cleaned up by its
path, after a look at the rows that nothing keeps true.
-/

namespace AsterDrive.Storage.MigrationRaces

open Interleave Db Migration List Option DedupStore
open DedupStore (Job Pc Recounted)

variable (cfg : Setup)

/-- What a step of a store, a deletion or a cleanup does. -/
structure Calls (s s' : Shared) (p p' : Pc Body) : Prop where
  safe : Safe cfg s s' (p.claimed.map FileBlob.id)
  read : ∀ b, p'.read = some b → p.read = some b ∨ s.blobs.get b.id = some b
  claimed : ∀ b, p'.claimed = some b → (∃ x, s'.blobs.get b.id = some x ∧ x.refCount = blobCleanupClaimedRefCount) ∧
      (p.claimed = some b ∨ ∃ x, s.blobs.get b.id = some x ∧ x.refCount = 0)

section

variable {cfg} {s s' : Shared} {p p' : Pc Body} {a : DedupStore.Act Body} {b : FileBlob} {t' : Blobs} {job : Job Body}
  {except : Option ℕ}

theorem Calls.away (hs : Safe cfg s s' (p.claimed.map FileBlob.id)) (hp : p'.read = none) : Calls cfg s s' p p' := by
  refine ⟨hs, fun b hb => ?_, fun b hb => ?_⟩
  · exact nomatch hp.symm.trans hb
  · exact nomatch (DedupStore.Pc.claimed_of_read hp).symm.trans hb

theorem Calls.on (hK : Knows cfg s.blobs (.other p)) (hs : Safe cfg s s' (p.claimed.map FileBlob.id))
    (hblobs : s'.blobs = s.blobs) (hread : p'.read = p.read) (hclaimed : p'.claimed = p.claimed) :
    Calls cfg s s' p p' := by
  refine ⟨hs, fun b hb => .inl (hread ▸ hb), fun b hb => ?_⟩
  rw [hclaimed] at hb
  rw [hblobs]
  exact ⟨hK.2 b hb, .inl hb⟩

theorem Calls.knows (h : Calls cfg s s' p p') (hK : Knows cfg s.blobs (.other p)) : Knows cfg s'.blobs (.other p') := by
  refine ⟨fun b hb => ?_, fun b hb => (h.claimed b hb).1⟩
  rcases h.read b hb with hold | hget
  · exact (hK.1 b hold).keep h.safe.keeps
  · exact (Read.of_get hget).keep h.safe.keeps

section

variable (hO : Orderly cfg s) (hI : Intact s)
include hO hI

theorem Safe.released {ids : List ℕ} (hcounts : s.counts ids = true)
    (hr : DedupStore.Released s.blobs ids t') : Safe cfg s (s.withBlobs t') except := by
  refine .recount hO hI hr.recounted (fun k x y hx hy hpos => ?_) fun k x _ hx hclaim => ?_
  · rw [hr.get k, hx, map_some] at hy
    have hcount := congrArg FileBlob.refCount (some.inj hy)
    by_contra hle
    split_ifs at hcount with hzero
    · omega
    · simp only [flooredDecrement] at hcount
      split_ifs at hcount with hfloor <;> omega
  · -- a claimed row counts no reference, so none of them goes
    have hzero : ids.count k = 0 := by
      by_contra hne
      have hmem : k ∈ ids := count_pos_iff.mp (Nat.pos_of_ne_zero hne)
      have hrow := List.all_eq_true.mp hcounts k hmem
      rw [hx] at hrow
      have hle : (ids.count k : ℤ) ≤ x.refCount := of_decide_eq_true hrow
      unfold blobCleanupClaimedRefCount at hclaim
      omega
    refine ⟨x, ?_, hclaim⟩
    rw [hr.get k, hx, map_some, if_pos hzero]

theorem stepIdle_calls (h : stepIdle cfg s a = some (s', p')) : Calls cfg s s' .idle p' := by
  have hsame : Safe cfg s s ((Pc.idle : Pc Body).claimed.map FileBlob.id) := .refl hO hI
  cases a with simp only [stepIdle] at h
  | store job =>
    split at h
    all_goals
      cases h
      exact .away hsame rfl
  | cleanup blobId =>
    split at h
    · cases h
      exact .away hsame rfl
    · next b hb =>
      split_ifs at h with hzero
      · cases h
        have hid : b.id = blobId := Table.key_of_get hb
        refine ⟨hsame, fun b' hb' => .inr ?_, fun _ hb' => nomatch hb'⟩
        obtain rfl : b = b' := some.inj hb'
        exact hid ▸ hb
      · cases h
        exact .away hsame rfl
  | deleteVersion blobId =>
    split_ifs at h with hcounts
    cases h
    exact .away (.released hO hI hcounts (decrement_released s.blobs blobId)) rfl
  | purge blobIds =>
    split_ifs at h with hcounts
    split at h
    · next blobs hok =>
      cases h
      exact .away (.released hO hI hcounts (purge_released hok)) rfl
    · cases h
      exact .away hsame rfl
  | _ => simp [stepIdle] at h

theorem Safe.linked (habsent : (s.object cfg job).isNone) (object : Option Body) :
    Safe cfg s (s.setObject job.policyId ((dedup cfg).path job) object) except := by
  have hnone : s.store.objects job.policyId ((dedup cfg).path job) = none := isNone_iff_eq_none.mp habsent
  refine .wrote hO hI fun k b hb hpos hpolicy hpath => ?_
  obtain ⟨body, hbody, _⟩ := intact_iff.mp hI k b hb hpos
  cases hbacking : b.backing with
  | stored =>
    rw [rowContent_stored hbacking hpath, hpolicy, hnone] at hbody
    exact nomatch hbody
  | virtualEmpty => exact nomatch (hO.empty k b hb hbacking).symm.trans hpath

theorem stepLink_calls (h : stepLink cfg job s a = some (s', p')) : Calls cfg s s' (.link job) p' := by
  have hsame : Safe cfg s s ((Pc.link job).claimed.map FileBlob.id) := .refl hO hI
  cases a with
  | ok | linkCopy =>
    simp only [stepLink] at h
    split_ifs at h with habsent
    · cases h
      exact .away (.linked hO hI habsent _) rfl
    · cases h
      exact .away hsame rfl
  | error =>
    cases h
    exact .away hsame rfl
  | _ => simp [stepLink] at h

theorem stepValidate_calls {created : Bool}
    (h : stepValidate cfg job created s a = some (s', p')) : Calls cfg s s' (.validate job created) p' := by
  have hsame : Safe cfg s s ((Pc.validate job created).claimed.map FileBlob.id) := .refl hO hI
  have hend : (if created then Pc.removeInvalid job else .finished).read = none := by
    split_ifs <;> rfl
  cases a with
  | ok =>
    simp only [stepValidate] at h
    split at h
    · cases h
      exact .away hsame rfl
    · cases h
      exact .away hsame hend
  | error =>
    cases h
    exact .away hsame hend
  | _ => simp [stepValidate] at h

theorem stepRemove_calls (hg : a = .ok ∨ a = .lost → unused s.blobs job.policyId ((dedup cfg).path job) = true)
    (h : stepRemove cfg job s a = some (s', p')) : Calls cfg s s' p p' := by
  cases a with
  | ok =>
    cases h
    exact .away (.removed hO hI (hg (.inl rfl))) rfl
  | lost =>
    cases h
    exact .away (.removed hO hI (hg (.inr rfl))) rfl
  | error =>
    cases h
    exact .away (.refl hO hI) rfl
  | _ => simp [stepRemove] at h

end

section

variable (hlaw : Law cfg) (hO : Orderly cfg s) (hI : Intact s)
include hlaw hO hI

theorem runTransaction_safe
    (hobject : s.object cfg job = some job.body) (h : runTransaction cfg job s = .ok s') : Safe cfg s s' except := by
  unfold runTransaction at h
  split at h
  · exact nomatch h
  · next b blobs hok =>
    cases h
    exact .commit hlaw hO hI hobject hok

theorem stepStaged_calls {created : Bool} (hg : a = .ok ∨ a = .lost → s.object cfg job = some job.body)
    (h : stepStaged cfg job created s a = some (s', p')) : Calls cfg s s' (.staged job created) p' := by
  have hsame : Safe cfg s s ((Pc.staged job created).claimed.map FileBlob.id) := .refl hO hI
  have hfail : (afterFailure job created).read = none := afterFailure_read job created
  have hrun : (a = .ok ∨ a = .lost) → Calls cfg s s' (.staged job created) p' := by
    intro ha
    have hres : stepStaged cfg job created s .ok = some (s', p') := by
      rcases ha with rfl | rfl <;> exact h
    simp only [stepStaged] at hres
    split at hres
    · next s1 hs1 =>
      cases hres
      exact .away (runTransaction_safe hlaw hO hI (hg ha) hs1) rfl
    · cases hres
      exact .away hsame hfail
  cases a with
  | ok => exact hrun (.inl rfl)
  | lost => exact hrun (.inr rfl)
  | error =>
    cases h
    exact .away hsame hfail
  | unknownRollback =>
    cases h
    exact .away hsame rfl
  | _ => simp [stepStaged] at h

/-- The claimed row counts no reference; where it was read, no other row has its path. -/
theorem Safe.deleted {path : String}
    (hK : Knows cfg s.blobs (.other (.delete b))) (hpath : b.storagePath = some path) (hg : deleteHolds s b = true) :
    Safe cfg s (s.setObject b.policyId path none) except := by
  obtain ⟨x, hx, hclaim⟩ := hK.2 b rfl
  unfold deleteHolds at hg
  rw [hpath] at hg
  rcases of_decide_eq_true hg with hany | hunused
  · rw [hx] at hany
    have hpolicy : x.policyId = b.policyId := of_decide_eq_true hany
    have heq : x = { b with refCount := x.refCount } := by
      refine ((hK.1 b rfl).became x hx).2.resolve_right fun hmoved => hlaw.distinct ?_
      exact hmoved.1.symm.trans (hpolicy.symm.trans hmoved.2)
    have hxpath : x.storagePath = some path := by
      rw [heq]
      exact hpath
    refine .wrote hO hI fun k y hy hpos hypolicy hypath => ?_
    obtain rfl : y = x := hO.filed.paths y (Table.mem_of_get hy) x (Table.mem_of_get hx) path hypath hxpath
      (hypolicy.trans hpolicy.symm)
    unfold blobCleanupClaimedRefCount at hclaim
    omega
  · exact .removed hO hI hunused

theorem stepDelete_calls
    (hK : Knows cfg s.blobs (.other (.delete b))) (hg : a = .ok ∨ a = .lost → deleteHolds s b = true)
    (h : stepDelete b s a = some (s', p')) : Calls cfg s s' (.delete b) p' := by
  have hsame : Safe cfg s s ((Pc.delete b : Pc Body).claimed.map FileBlob.id) := .refl hO hI
  unfold stepDelete at h
  split at h
  · split_ifs at h
    all_goals
      cases h
      exact .on hK hsame rfl rfl rfl
  · next path hpath =>
    cases h
    exact .on hK (.deleted hlaw hO hI hK hpath (hg (.inl rfl))) rfl rfl rfl
  · next path hpath =>
    cases h
    exact .on hK (.deleted hlaw hO hI hK hpath (hg (.inr rfl))) rfl rfl rfl
  · cases h
    exact .on hK hsame rfl rfl rfl
  · cases h
    exact .on hK hsame rfl rfl rfl
  · exact nomatch h

end

theorem stepProbe_calls (hO : Orderly cfg s) (hI : Intact s) (hK : Knows cfg s.blobs (.other (.probe b)))
    (h : stepProbe b s a = some (s', p')) : Calls cfg s s' (.probe b) p' := by
  have hsame : Safe cfg s s ((Pc.probe b : Pc Body).claimed.map FileBlob.id) := .refl hO hI
  cases a with
  | ok =>
    simp only [stepProbe] at h
    split at h
    · exact nomatch h
    · cases h
      split_ifs
      all_goals exact .on hK hsame rfl rfl rfl
  | error =>
    cases h
    exact .on hK hsame rfl rfl rfl
  | _ => simp [stepProbe] at h

theorem stepRow_calls {run : Blobs → Option Blobs} {done missed : Pc Body}
    (hok : ∀ blobs, run s.blobs = some blobs → Calls cfg s (s.withBlobs blobs) p done) (hmissed : Calls cfg s s p missed)
    (h : stepRow s run done missed a = some (s', p')) : Calls cfg s s' p p' := by
  cases a with
  | ok =>
    simp only [stepRow] at h
    split at h
    · next blobs hrun =>
      cases h
      exact hok blobs hrun
    · cases h
      exact hmissed
  | error =>
    cases h
    exact hmissed
  | _ => simp [stepRow] at h

section

variable (hO : Orderly cfg s) (hI : Intact s)
include hO hI

theorem Safe.one {id : ℕ} {x : FileBlob} {n : ℤ} (hx : s.blobs.get id = some x) (hnext : t'.next = s.blobs.next)
    (hget : ∀ k, t'.get k = if k = id then some { x with refCount := n } else s.blobs.get k) (hn : n ≤ 0)
    (hclaim : except = some id ∨ x.refCount ≠ blobCleanupClaimedRefCount) :
    Safe cfg s (s.withBlobs t') except := by
  refine .recount hO hI (recounted_of_one hx hnext hget) (fun k y z hy hz hpos => ?_) fun k y hk hy hc => ?_
  · rw [hget k] at hz
    split_ifs at hz with hid
    · cases hz
      exact absurd hpos (not_lt.mpr hn)
    · rw [hy] at hz
      exact some.inj hz ▸ hpos
  · have hid : k ≠ id := by
      rintro rfl
      obtain rfl : x = y := some.inj (hx.symm.trans hy)
      rcases hclaim with hexcept | hne
      · exact hk hexcept.symm
      · exact hne hc
    exact ⟨y, (hget k).trans ((if_neg hid).trans hy), hc⟩

theorem claim_calls {blobs : Blobs}
    (h : claimBlobCleanup s.blobs b.id = some blobs) : Calls cfg s (s.withBlobs blobs) (.claim b) (.delete b) := by
  obtain ⟨x, hx, hzero, hnext, hget⟩ := claim_ok h
  have hneg : blobCleanupClaimedRefCount ≤ 0 := by decide
  have hne : x.refCount ≠ blobCleanupClaimedRefCount := by
    unfold blobCleanupClaimedRefCount
    omega
  refine ⟨.one hO hI hx hnext hget hneg (.inr hne), fun b' hb' => .inl hb', fun b' hb' => ?_⟩
  obtain rfl : b = b' := some.inj hb'
  exact ⟨⟨_, (hget b.id).trans (if_pos rfl), rfl⟩, .inr ⟨x, hx, hzero⟩⟩

theorem restore_calls {blobs : Blobs}
    (h : restoreBlobCleanupClaim s.blobs b.id = some blobs) : Calls cfg s (s.withBlobs blobs) (.restore b) .finished := by
  obtain ⟨x, hx, _, hnext, hget⟩ := restore_ok h
  exact .away (.one hO hI hx hnext hget (le_refl _) (.inl rfl)) rfl

theorem drop_calls {blobs : Blobs}
    (h : deleteBlobIfCleanupClaimed s.blobs b.id = some blobs) : Calls cfg s (s.withBlobs blobs) (.drop b) .finished := by
  obtain ⟨_, hget⟩ := drop_ok h
  refine .away (.recount hO hI (drop_recounted h) (fun k y z hy hz hpos => ?_) fun k y hk hy hc => ?_) rfl
  · rw [hget k] at hz
    split_ifs at hz
    rw [hy] at hz
    exact some.inj hz ▸ hpos
  · have hid : k ≠ b.id := fun hid => hk (congrArg some hid)
    exact ⟨y, (hget k).trans ((if_neg hid).trans hy), hc⟩

end

/-- **A step of a store, a deletion or a cleanup.** -/
theorem stepCall_calls (hlaw : Law cfg) (hO : Orderly cfg s) (hI : Intact s) (hK : Knows cfg s.blobs (.other p))
    (hg : callHolds cfg s p a = true) (h : stepCall cfg a s p = some (s', p')) : Calls cfg s s' p p' := by
  have hsame : Safe cfg s s (p.claimed.map FileBlob.id) := .refl hO hI
  cases p with
  | idle => exact stepIdle_calls hO hI h
  | link job => exact stepLink_calls hO hI h
  | validate job created => exact stepValidate_calls hO hI h
  | removeInvalid job | rollbackDelete job =>
    refine stepRemove_calls hO hI ?_ h
    rintro (rfl | rfl) <;> exact hg
  | staged job created =>
    refine stepStaged_calls hlaw hO hI ?_ h
    rintro (rfl | rfl) <;> exact of_decide_eq_true hg
  | rollback job =>
    simp only [stepCall] at h
    split at h
    · cases h
      refine .away hsame ?_
      split_ifs <;> rfl
    · cases h
      exact .away hsame rfl
    · exact nomatch h
  | claim b =>
    have hrow : stepRow s (fun t => claimBlobCleanup t b.id) (.delete b) .finished a = some (s', p') := h
    exact stepRow_calls (fun blobs => claim_calls hO hI) (.away hsame rfl) hrow
  | delete b =>
    refine stepDelete_calls hlaw hO hI hK ?_ h
    rintro (rfl | rfl) <;> exact hg
  | probe b => exact stepProbe_calls hO hI hK h
  | drop b =>
    have hrow : stepRow s (fun t => deleteBlobIfCleanupClaimed t b.id) .finished (.restore b) a = some (s', p') := h
    have hmissed : Calls cfg s s (.drop b) (.restore b) := .on hK hsame rfl rfl rfl
    exact stepRow_calls (fun blobs => drop_calls hO hI) hmissed hrow
  | restore b =>
    have hrow : stepRow s (fun t => restoreBlobCleanupClaim t b.id) .finished .finished a = some (s', p') := h
    exact stepRow_calls (fun blobs => restore_calls hO hI) (.away hsame rfl) hrow
  | finished => exact nomatch h

end

/-! ### All workers -/

/-- What a step does, and what the worker knows and has claimed afterwards. -/
structure Moves (s s' : Shared) (p p' : Proc) : Prop where
  safe : Safe cfg s s' (p.claimed.map FileBlob.id)
  knows : Knows cfg s'.blobs p'
  claimed : ∀ b, p'.claimed = some b → p.claimed = some b ∨ ∃ x, s.blobs.get b.id = some x ∧ x.refCount = 0

section

variable {cfg} {s s' : Shared} {p p' q : Proc} {a : Act} {b : FileBlob}

theorem Moves.finished (hs : Safe cfg s s' (p.claimed.map FileBlob.id)) : Moves cfg s s' p (.other .finished) :=
  ⟨hs, ⟨fun _ hb => (nomatch hb), fun _ hb => (nomatch hb)⟩, fun _ hb => (nomatch hb)⟩

theorem storeEmpty_safe {policyId : ℕ} {except : Option ℕ} (hlaw : Law cfg) (hO : Orderly cfg s) (hI : Intact s)
    (h : storeEmpty policyId s = .ok s') : Safe cfg s s' except := by
  unfold storeEmpty at h
  split at h
  · exact nomatch h
  · next b blobs hok =>
    cases h
    exact .commitEmpty hlaw hO hI hok

/-- **Every step is safe.** -/
theorem step_moves (hlaw : Law cfg) (hO : Orderly cfg s) (hI : Intact s) (hK : Knows cfg s.blobs p)
    (hg : StillHolds cfg s p a) (h : step cfg a s p = some (s', p')) : Moves cfg s s' p p' := by
  unfold step at h
  split at h
  · obtain ⟨hsafe, hknows, hnone⟩ := stepMigration_safe hlaw hO hI hK hg h
    exact ⟨hsafe, hknows, fun b hb => nomatch hnone.symm.trans hb⟩
  · have hidle : Knows cfg s.blobs (.migration .idle) := trivial
    obtain ⟨hsafe, hknows, hnone⟩ := stepMigration_safe hlaw hO hI hidle rfl h
    exact ⟨hsafe, hknows, fun b hb => nomatch hnone.symm.trans hb⟩
  · split at h
    · next s1 hs1 =>
      cases h
      exact .finished (storeEmpty_safe hlaw hO hI hs1)
    · cases h
      exact .finished (.refl hO hI)
  · cases h
    exact .finished (.refl hO hI)
  · obtain ⟨⟨s1, p1⟩, hcall, hr⟩ := map_eq_some_iff.mp h
    cases hr
    have hcalls := stepCall_calls hlaw hO hI hK hg hcall
    exact ⟨hcalls.safe, hcalls.knows hK, fun b hb => (hcalls.claimed b hb).2⟩
  · exact nomatch h

theorem Knows.claim (h : Knows cfg s.blobs p) (hb : p.claimed = some b) :
    ∃ x, s.blobs.get b.id = some x ∧ x.refCount = blobCleanupClaimedRefCount := by
  cases p with
  | migration _ => exact nomatch hb
  | other _ => exact h.2 b hb

theorem Moves.other (hm : Moves cfg s s' p p') (hq : Knows cfg s.blobs q) (hpq : Apart p q) : Knows cfg s'.blobs q := by
  refine hq.keep hm.safe fun b hb hid => ?_
  obtain ⟨b', hb', heq⟩ := map_eq_some_iff.mp hid.symm
  exact hpq b' b hb' hb heq

theorem Moves.apart (hm : Moves cfg s s' p p') (hq : Knows cfg s.blobs q) (hpq : Apart p q) : Apart p' q := by
  intro b b' hb hb' hid
  rcases hm.claimed b hb with hold | ⟨x, hx, hzero⟩
  · exact hpq b b' hold hb' hid
  · -- the row counted zero, so nobody had claimed it
    obtain ⟨y, hy, hclaim⟩ := hq.claim hb'
    rw [← hid, hx] at hy
    rw [← some.inj hy, hzero] at hclaim
    simp [blobCleanupClaimedRefCount] at hclaim

theorem Apart.symm (h : Apart p q) : Apart q p := fun b b' hb hb' => Ne.symm (h b' b hb' hb)

end

/-- **No content is lost**, in every state of a run in which what was seen still holds when it is acted upon. -/
theorem content_never_lost {s₀ : Shared} {c : Config Shared Proc} (hlaw : Law cfg) (horderly : Orderly cfg s₀)
    (hintact : Intact s₀) (h : Reach (system cfg) (StillHolds cfg) (start s₀) c) : Intact c.shared := by
  have hc : Holds (fun s => Orderly cfg s ∧ Intact s) (fun s p => Knows cfg s.blobs p) Apart c := by
    refine Reach.owicki ?_ ?_ ?_ h
    · intro s s' p p' a hI hK hg hstep
      have hm := step_moves hlaw hI.1 hI.2 hK hg hstep
      exact ⟨⟨hm.safe.orderly, hm.safe.intact⟩, hm.knows⟩
    · intro s s' p p' q a hI hK hq hpq _ hg hstep
      have hm := step_moves hlaw hI.1 hI.2 hK hg hstep
      have hapart := hm.apart hq hpq
      exact ⟨hm.other hq hpq, hapart, hapart.symm⟩
    · refine ⟨⟨horderly, hintact⟩, fun i => ⟨fun b hb => ?_, fun b hb => ?_⟩, fun i j _ b b' hb => ?_⟩
      all_goals exact nomatch hb
  exact hc.shared.2

/-! ### One content in two policies -/

/-- One byte, the letter a. -/
def byteA : Body := [97]

def keyA : String := "ca978112ca1bbdcafac231b39a23dc4da786eff8147c4e72b9807785afee48bb"

/-- The digest of `byteA`, and other digests that repeat their contents. -/
def digest (body : Body) : String := if body = byteA then keyA else "content-" ++ spell body

def twoPolicies : Setup where
  sha256 := digest
  storagePathFromBlobKey key := .ok ("ca/97/" ++ key)
  inferStorageErrorKind _ := .unknown
  sourcePolicyId := 1
  targetPolicyId := 2
  mode := .normal
  targetMultipartPartSize := 0
  multipart := none

def pathA : String := "ca/97/" ++ keyA

/-- A row of `byteA` in the source policy, with one reference. -/
def oneRow : Shared where
  store := {
    db := {
      blobs := ⟨⟨[⟨1, keyA, 1, .stored, some pathA, 1, 1⟩], by decide⟩, 2, by decide⟩
      files := .empty
      histories := .empty
      revisions := .empty
      usage := .empty }
    objects policyId path := if policyId = 1 ∧ path = pathA then some byteA else none }
  written k := if k = 1 then [byteA] else []

theorem append_ne_append {x y : String} {n : ℕ} (hx : n ≤ x.toList.length) (hy : n ≤ y.toList.length)
    (h : x.toList.take n ≠ y.toList.take n) (u v : String) : x ++ u ≠ y ++ v := by
  intro heq
  refine h ?_
  have hlists : x.toList ++ u.toList = y.toList ++ v.toList := by
    rw [← String.toList_append, ← String.toList_append, heq]
  have htake := congrArg (List.take n) hlists
  rwa [take_append_of_le_length hx, take_append_of_le_length hy] at htake

theorem digest_ne {x : String} (hx : 3 ≤ x.toList.length) (hkey : keyA.toList.take 3 ≠ x.toList.take 3)
    (hcontent : "content-".toList.take 3 ≠ x.toList.take 3) (body : Body) (u : String) : digest body ≠ x ++ u := by
  unfold digest
  split_ifs
  · have hne := append_ne_append (by decide) hx hkey "" u
    rwa [String.append_empty] at hne
  · exact append_ne_append (by decide) hx hcontent _ u

theorem digest_injective : Function.Injective digest := by
  have hother : ∀ body, keyA ≠ "content-" ++ spell body := by
    intro body
    have hne := append_ne_append (x := keyA) (y := "content-") (n := 3) (by decide) (by decide) (by decide) ""
      (spell body)
    rwa [String.append_empty] at hne
  intro a b h
  unfold digest at h
  split_ifs at h with ha hb hb
  · exact ha.trans hb.symm
  · exact absurd h (hother b)
  · exact absurd h.symm (hother a)
  · exact spell_injective ((String.append_right_inj _).mp h)

theorem twoPolicies_law : Law twoPolicies := by
  refine ⟨⟨by decide, digest_injective, fun key key' path hkey hkey' => ?_⟩, fun body => ⟨_, rfl⟩, fun body uuid => ?_⟩
  · exact (String.append_right_inj _).mp ((Except.ok.inj hkey).trans (Except.ok.inj hkey').symm)
  · exact digest_ne (by decide) (by decide) (by decide) body uuid

theorem oneRow_rows {k : ℕ} {b : FileBlob} (h : oneRow.blobs.get k = some b) :
    k = 1 ∧ b = ⟨1, keyA, 1, .stored, some pathA, 1, 1⟩ := by
  obtain rfl : b.id = k := Table.key_of_get h
  obtain rfl := mem_singleton.mp (Table.mem_of_get h)
  exact ⟨rfl, rfl⟩

theorem oneRow_orderly : Orderly twoPolicies oneRow := by
  have hrow : ∀ b ∈ oneRow.blobs.rows, b = ⟨1, keyA, 1, .stored, some pathA, 1, 1⟩ := fun b hb => mem_singleton.mp hb
  -- a content with this digest is `byteA`
  have hbody : ∀ body, keyA = digest body → body = byteA := fun body h => digest_injective (h.symm.trans rfl)
  refine ⟨⟨?_, ?_, ?_⟩, ?_, ?_, ?_, ?_, ?_⟩
  · intro b hb b' hb' _ _ _ _
    rw [hrow b hb, hrow b' hb']
  · intro b hb body hhash _
    rw [hrow b hb] at hhash ⊢
    obtain rfl := hbody body hhash
    exact ⟨rfl, rfl⟩
  · intro b hb body hpath
    rw [hrow b hb] at hpath ⊢
    exact ⟨(String.append_right_inj _).mp (some.inj hpath), rfl⟩
  · intro k b hb key path hkey hpath
    obtain ⟨rfl, rfl⟩ := oneRow_rows hb
    have hpaths : pathA = path := some.inj hpath
    exact ⟨(String.append_right_inj _).mp (hpaths.trans (Except.ok.inj hkey).symm), rfl⟩
  · intro k b hb hempty
    obtain ⟨rfl, rfl⟩ := oneRow_rows hb
    exact nomatch hempty
  · intro k b hb _ _ body hmem
    obtain ⟨rfl, rfl⟩ := oneRow_rows hb
    obtain rfl := mem_singleton.mp hmem
    rfl
  · intro k b hb hempty
    obtain ⟨rfl, rfl⟩ := oneRow_rows hb
    exact nomatch hempty
  · intro k hk
    have hne : k ≠ 1 := fun h => absurd (h ▸ hk) (by decide)
    exact if_neg hne

theorem oneRow_intact : Intact oneRow := by
  intro k b hb _
  obtain ⟨rfl, rfl⟩ := oneRow_rows hb
  exact ⟨byteA, by decide, fun written hw => mem_singleton.mp hw⟩

def step₀ (a : Migration.Act) : ℕ × Act := (0, .migrate a)

/-- A migration up to the write of the copy. -/
def untilPut : List (ℕ × Act) := [step₀ .claim, step₀ go, step₀ go, step₀ go, step₀ go, step₀ go, step₀ go, step₀ go]

def storeA : Act := .call (.store ⟨byteA, 2⟩)

/-- The content is stored in the target policy while it is copied. The move finds the key taken; the next attempt
merges. One of the two references goes. -/
def copiedAndStored : List (ℕ × Act) :=
  untilPut ++ [(1, storeA), step₀ (.writes (some byteA) none), (1, .call .ok), step₀ go, (1, .call .ok), (1, .call .ok),
    step₀ go, step₀ go, step₀ .claim, step₀ go, step₀ go, step₀ go, step₀ go, step₀ go, step₀ go, step₀ go, step₀ go,
    step₀ go, (2, .call (.deleteVersion 2))]

theorem content_never_lost_copiedAndStored : ∃ c, Reach (system twoPolicies) (StillHolds twoPolicies) (start oneRow) c ∧
      (c.shared.blobs.rows.map fun b => (b.id, b.policyId, b.refCount)) = [(2, 2, 1)] ∧
      c.shared.written 2 = [byteA, byteA] ∧ Intact c.shared := by
  have hrun : ((system twoPolicies).run (StillHolds twoPolicies) (start oneRow) copiedAndStored).map (fun c =>
      (c.shared.blobs.rows.map fun b => (b.id, b.policyId, b.refCount), c.shared.written 2)) =
      some ([(2, 2, 1)], [byteA, byteA]) := by decide
  obtain ⟨c, hc, hrows, hwritten⟩ := map_pair_eq_some hrun
  have hreach := run_reach hc
  exact ⟨c, hreach, hrows, hwritten, content_never_lost twoPolicies twoPolicies_law oneRow_orderly oneRow_intact hreach⟩

/-- The copy fails, and no row has its path. Then the content is stored, and then the path is cleaned up. -/
def cleanedUpUnder : List (ℕ × Act) :=
  untilPut ++ [step₀ (.writes none (some (.transient, "timeout"))), step₀ go, (1, storeA), (1, .call .ok),
    (1, .call .ok), (1, .call .ok), step₀ go]

/-- **The cleanup of a failed copy removes the object of a row that was committed since.** -/
theorem stored_content_lost :
    ¬ ∀ (cfg : Setup) (s₀ : Shared) (c : Config Shared Proc), Law cfg → Orderly cfg s₀ → Intact s₀ →
      Reach (system cfg) free (start s₀) c → Intact c.shared := by
  intro hall
  have hrun : ((system twoPolicies).run free (start oneRow) cleanedUpUnder).map (fun c =>
      (c.shared.blobs.get 2, content c.shared.store 2)) =
      some (some ⟨2, keyA, 2, .stored, some pathA, 1, 1⟩, none) := by decide
  obtain ⟨c, hc, hrow, hgone⟩ := map_pair_eq_some hrun
  have hintact := hall twoPolicies oneRow c twoPolicies_law oneRow_orderly oneRow_intact (run_reach hc)
  obtain ⟨body, hbody, _⟩ := hintact 2 _ hrow one_pos
  exact nomatch hgone.symm.trans hbody

end AsterDrive.Storage.MigrationRaces
