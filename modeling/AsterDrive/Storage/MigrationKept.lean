import AsterDrive.Storage.MigrationSafety

/-!
# Storage/MigrationKept — no content is lost while what was seen still holds

What a worker has learned is about rows that it has read: `Copying` and `Merging` for a blob on its way, the claimed
row for a cleanup. It survives the steps of all others (`Knows.keep`). With it and `StillHolds` every step is `Safe`,
so the contents stay. Without the guard they do not: a copy is cleaned up by its path, after a look at the rows that
nothing keeps true.
-/

namespace AsterDrive.Storage.MigrationRaces

open Interleave Db Migration Option
open DedupStore (Job)

variable (cfg : Setup)

/-! ### What a worker has learned -/

/-- A blob of the source policy that is copied. -/
structure Copying (t : Blobs) (c : Copy) : Prop where
  read : Read cfg t c.blob
  source : c.blob.policyId = cfg.sourcePolicyId
  stored : c.blob.backing = .stored
  sourcePath : c.blob.storagePath = some c.sourcePath
  targetPath : cfg.storagePathFromBlobKey c.targetHash = .ok c.targetPath
  key : Keyed cfg c.targetHash → c.targetHash = c.blob.hash

/-- Two rows, one in each policy. -/
structure Merging (t : Blobs) (latest target : FileBlob) : Prop where
  read : Read cfg t latest
  found : Read cfg t target
  source : latest.policyId = cfg.sourcePolicyId
  policy : target.policyId = cfg.targetPolicyId
  backing : target.backing = latest.backing
  key : latest.backing = .stored → isContentSha256BlobKey latest.hash = true

/-- A blob of the source policy without an object. -/
structure Virtual (t : Blobs) (b : FileBlob) : Prop where
  read : Read cfg t b
  source : b.policyId = cfg.sourcePolicyId
  empty : b.backing = .virtualEmpty

def GoalKnown (t : Blobs) : Goal → Prop
  | .merge latest target => Merging cfg t latest target
  | .move c => Copying cfg t c

def Learned (t : Blobs) : Migration.Pc → Prop
  | .find _ | .skip _ => True
  | .findVirtual latest | .moveVirtual latest | .findVirtualAgain latest _ => Virtual cfg t latest
  | .findTarget latest => Read cfg t latest ∧ latest.policyId = cfg.sourcePolicyId ∧ latest.backing = .stored
  | .merge latest target => Merging cfg t latest target
  | .openSource c | .put c _ | .createUpload c _ | .abortUpload c _ | .move c | .findReference c _
  | .deleteTarget c _ => Copying cfg t c
  | .uploadPart u _ | .finishRange u | .completeUpload u | .probeCompleted u _ => Copying cfg t u.copy
  | .metadata v | .reread v => GoalKnown cfg t v.goal

def LearnedNext (t : Blobs) : Next → Prop
  | .goto pc => Learned cfg t pc
  | .done | .failed _ => True

def Knows (t : Blobs) : Proc → Prop
  | .migration (.blob _ pc _) => Learned cfg t pc
  | .migration (.findRecoveryTarget _ _ source) => Virtual cfg t source
  | .migration (.recoverVirtual _ _ source found) => Virtual cfg t source ∧
      ∀ target ∈ found, Read cfg t target ∧ target.policyId = cfg.targetPolicyId ∧ target.backing = .virtualEmpty
  | .migration _ => True
  | .other p => (∀ b, p.read = some b → Read cfg t b) ∧
      ∀ b, p.claimed = some b → ∃ x, t.get b.id = some x ∧ x.refCount = blobCleanupClaimedRefCount

/-- The row that a cleanup has claimed. -/
def Proc.claimed : Proc → Option FileBlob
  | .migration _ => none
  | .other p => p.claimed

/-- No row is claimed by two workers. -/
def Apart (p q : Proc) : Prop := ∀ b b', p.claimed = some b → q.claimed = some b' → b.id ≠ b'.id

section

variable {cfg} {s s' : Shared} {t t' : Blobs} {a : Migration.Act} {r : Store} {n : Next} {c : Copy}
  {b x latest target : FileBlob} {except : Option ℕ}

theorem Copying.keep (h : Copying cfg t c) (hk : Keeps cfg t t') : Copying cfg t' c :=
  ⟨h.read.keep hk, h.source, h.stored, h.sourcePath, h.targetPath, h.key⟩

theorem Merging.keep (h : Merging cfg t latest target) (hk : Keeps cfg t t') : Merging cfg t' latest target :=
  ⟨h.read.keep hk, h.found.keep hk, h.source, h.policy, h.backing, h.key⟩

theorem Virtual.keep (h : Virtual cfg t b) (hk : Keeps cfg t t') : Virtual cfg t' b :=
  ⟨h.read.keep hk, h.source, h.empty⟩

theorem Learned.keep {pc : Migration.Pc} (h : Learned cfg t pc) (hk : Keeps cfg t t') : Learned cfg t' pc := by
  cases pc with
  | find _ | skip _ => trivial
  | findVirtual _ | moveVirtual _ | findVirtualAgain _ _ => exact Virtual.keep h hk
  | findTarget _ => exact ⟨h.1.keep hk, h.2⟩
  | merge _ _ => exact Merging.keep h hk
  | metadata v | reread v =>
    obtain ⟨path, hash, size, goal⟩ := v
    cases goal with
    | merge _ _ => exact Merging.keep h hk
    | move _ => exact Copying.keep h hk
  | _ => exact Copying.keep h hk

theorem Knows.keep {q : Proc} (h : Knows cfg s.blobs q) (hs : Safe cfg s s' except)
    (hne : ∀ b, q.claimed = some b → some b.id ≠ except) : Knows cfg s'.blobs q := by
  have hk := hs.keeps
  cases q with
  | migration w =>
    cases w with
    | blob _ _ _ => exact Learned.keep h hk
    | findRecoveryTarget _ _ _ => exact Virtual.keep h hk
    | recoverVirtual _ _ _ _ => exact ⟨h.1.keep hk, fun target ht => ⟨(h.2 target ht).1.keep hk, (h.2 target ht).2⟩⟩
    | _ => trivial
  | other p =>
    refine ⟨fun b hb => (h.1 b hb).keep hk, fun b hb => ?_⟩
    obtain ⟨x, hx, hclaim⟩ := h.2 b hb
    exact hs.claims b.id x (hne b hb) hx hclaim

/-! ### `migrate_one_blob` -/

/-- A step of a worker that hands nothing on: it changes neither row nor object, or is safe. -/
def Goes (cfg : Setup) (s : Shared) (r : Store) (n : Next) : Prop :=
  ((r.db = s.store.db ∧ r.objects = s.store.objects) ∨ Safe cfg s { s with store := r } none) ∧
    LearnedNext cfg r.db.blobs n

theorem Goes.stay (h : LearnedNext cfg s.blobs n) : Goes cfg s s.store n := ⟨.inl ⟨rfl, rfl⟩, h⟩

theorem Goes.fail (e : AsterError) : Goes cfg s s.store (.failed e) := .stay trivial

variable {id : ℕ}

theorem Goes.advance {cursor : ℕ} {outcome : BlobMigrationOutcome} {e : Option String} :
    Goes cfg s (s.store.advance id cursor outcome e) .done := ⟨.inl ⟨rfl, rfl⟩, trivial⟩

theorem Goes.safe (hO : Orderly cfg s) (hI : Intact s) (h : Goes cfg s r n) : Safe cfg s { s with store := r } none := by
  rcases h.1 with ⟨hdb, hobjects⟩ | h
  · exact (Safe.refl hO hI).congr (congrArg Db.blobs hdb) rfl hobjects
  · exact h

theorem stepFind_goes {blob : FileBlob} (h : stepFind cfg s.store blob a = some (r, n)) : Goes cfg s r n := by
  rcases database_ok h with ⟨_, _, h⟩ | ⟨rfl, e, rfl⟩
  · split at h
    · cases h
      exact .stay trivial
    · next latest hget =>
      split_ifs at h with hpolicy hempty
      · cases h
        exact .stay trivial
      · cases h
        exact .stay ⟨.of_get hget, not_not.mp hpolicy, hempty⟩
      · cases h
        refine .stay ⟨.of_get hget, not_not.mp hpolicy, ?_⟩
        cases hbacking : latest.backing with
        | stored => rfl
        | virtualEmpty => exact absurd hbacking hempty
  · exact .fail e

theorem startCopy_learned {targetHash : String} {renamed : Bool} (hread : Read cfg t latest)
    (hsource : latest.policyId = cfg.sourcePolicyId) (hstored : latest.backing = .stored)
    (hkey : Keyed cfg targetHash → targetHash = latest.hash) :
    LearnedNext cfg t (startCopy cfg latest targetHash renamed) := by
  unfold startCopy
  split
  · trivial
  · next targetPath hpath =>
    split
    · trivial
    · next sourcePath hsourcePath =>
      have hcopy : Copying cfg t { blob := latest, sourcePath, targetHash, targetPath, renamedOpaqueBlob := renamed } :=
        ⟨hread, hsource, hstored, hsourcePath, hpath, hkey⟩
      split
      · exact hcopy
      · split
        · trivial
        · split_ifs
          · exact hcopy
          · exact hcopy
          · trivial

theorem not_keyed (hlaw : Law cfg) (uuid : String) : ¬ Keyed cfg ("migration-" ++ uuid) := by
  have hdash : isContentSha256BlobKey ("migration-" ++ uuid) = false := isContent_append_dash "migration" uuid
  rintro (hcontent | ⟨body, hbody⟩)
  · exact nomatch hdash.symm.trans hcontent
  · exact hlaw.made body uuid hbody.symm

theorem stepFindTarget_goes (hlaw : Law cfg) (hread : Read cfg s.blobs latest)
    (hsource : latest.policyId = cfg.sourcePolicyId) (hstored : latest.backing = .stored)
    (h : stepFindTarget cfg s.store latest a = some (r, n)) : Goes cfg s r n := by
  rcases database_ok h with ⟨_, uuid, h⟩ | ⟨rfl, e, rfl⟩
  · split at h
    · cases h
      exact .stay (startCopy_learned hread hsource hstored fun _ => rfl)
    · next target hfind =>
      obtain ⟨hget, hp⟩ := mem_of_find hfind
      obtain ⟨_, hpolicy, hbacking⟩ := of_decide_eq_true hp
      split_ifs at h with hkey htaken
      · cases h
        have hmerging : Merging cfg s.blobs latest target :=
          ⟨hread, .of_get hget, hsource, hpolicy, hbacking.trans hstored.symm, fun _ => hkey⟩
        refine .stay ?_
        unfold verifyExistingTarget
        split_ifs
        · trivial
        · split
          · trivial
          · exact hmerging
      · cases h
        exact .stay (startCopy_learned hread hsource hstored fun hkeyed => absurd hkeyed (not_keyed hlaw uuid))
  · exact .fail e

theorem stepFindVirtual_goes {absent : Next} (hv : Virtual cfg s.blobs latest) (habsent : LearnedNext cfg s.blobs absent)
    (h : stepFindVirtual cfg s.store latest absent a = some (r, n)) : Goes cfg s r n := by
  rcases database_ok h with ⟨_, _, h⟩ | ⟨rfl, e, rfl⟩
  · split at h
    · next target hfind =>
      cases h
      obtain ⟨hget, hp⟩ := mem_of_find hfind
      obtain ⟨_, hpolicy, hbacking⟩ := of_decide_eq_true hp
      have hmerging : Merging cfg s.blobs latest target := by
        refine ⟨hv.read, .of_get hget, hv.source, hpolicy, hbacking.trans hv.empty.symm, fun hstored => ?_⟩
        exact nomatch hv.empty.symm.trans hstored
      exact .stay hmerging
    · cases h
      exact .stay habsent
  · exact .fail e

theorem Safe.movedVirtual (hO : Orderly cfg s) (hI : Intact s) {moved : Bool}
    (h : moveVirtualEmptyBlobPolicyIfCurrent s.blobs id cfg.sourcePolicyId cfg.targetPolicyId = .ok (moved, t')) :
    Safe cfg s (s.withBlobs t') except := by
  rcases moveVirtualEmptyBlobPolicyIfCurrent_inv h with rfl | ⟨x, hx, hsource, hempty, hnext, hrel⟩
  · exact (Safe.refl hO hI).congr rfl rfl rfl
  · have hpath := hO.empty _ x hx hempty
    have hnone : ∀ path, x.storagePath = some path → False := fun path hp => nomatch hpath.symm.trans hp
    have hid : x.id = id := Table.key_of_get hx
    refine .relocated hO hI hx hnext hrel ⟨rfl, .inr ⟨hsource, rfl⟩⟩ rfl ?_ ?_ (fun _ => hpath) (fun _ _ => rfl) ?_
    · refine filed_of_relocated hO.filed hrel hid ?_ ?_ ?_
      · exact fun _ _ _ path hp => (hnone path hp).elim
      · exact fun _ _ hstored => nomatch hempty.symm.trans hstored
      · exact fun _ hp => (hnone _ hp).elim
    · exact fun _ path _ hp => (hnone path hp).elim
    · intro _
      rw [rowContent_empty hempty]
      exact rowContent_empty hempty

theorem stepMoveVirtual_goes (hO : Orderly cfg s) (hI : Intact s) (hv : Virtual cfg s.blobs latest)
    (h : stepMoveVirtual cfg s.store latest a = some (r, n)) : Goes cfg s r n := by
  rcases database_ok h with ⟨_, _, h⟩ | ⟨rfl, e, rfl⟩
  · rcases orFailed_ok (some.inj h) with h | ⟨rfl, e, rfl⟩
    · obtain ⟨s1, hmove, hr⟩ := map_ok_iff.mp h
      cases hr
      obtain ⟨⟨moved, blobs⟩, hblobs, hmove⟩ := bind_ok hmove
      cases hmove
      have hsafe : Safe cfg s (s.withBlobs blobs) none := .movedVirtual hO hI hblobs
      exact ⟨.inr (hsafe.congr rfl rfl rfl), trivial⟩
    · exact .stay hv
  · exact .stay hv

theorem Safe.moved (hlaw : Law cfg) (hO : Orderly cfg s) (hI : Intact s) (hc : Copying cfg s.blobs c)
    (hholds : moveHolds cfg s c = true) {moved : Bool}
    (h : moveBlobPolicyIfCurrent s.blobs c.blob.id cfg.sourcePolicyId cfg.targetPolicyId c.targetHash c.targetPath =
      .ok (moved, t')) : Safe cfg s (s.withBlobs t') except := by
  rcases moveBlobPolicyIfCurrent_inv h with rfl | ⟨x, hx, hsource, hnext, hfree, hrel⟩
  · exact (Safe.refl hO hI).congr rfl rfl rfl
  · have hid : x.id = c.blob.id := Table.key_of_get hx
    have heq := (hc.read.became x hx).still hlaw.distinct hsource
    have hbacking : x.backing = .stored := by
      rw [heq]
      exact hc.stored
    have hxpath : x.storagePath = some c.sourcePath := by
      rw [heq]
      exact hc.sourcePath
    have hxhash : x.hash = c.blob.hash := by rw [heq]
    -- a row of the target policy with this path would have the key
    have hunique : ∀ z ∈ s.blobs.rows, z.storagePath = some c.targetPath → z.policyId ≠ cfg.targetPolicyId := by
      intro z hz hpath hpolicy
      obtain ⟨hhash, hstored⟩ := hO.owned z.id z (Table.get_of_mem hz) _ _ hc.targetPath hpath
      have hkey := hfree z hz
      rw [hbacking] at hkey
      exact of_decide_eq_false hkey ⟨hhash, hpolicy, hstored⟩
    refine .relocated hO hI hx hnext hrel ⟨rfl, .inr ⟨hsource, rfl⟩⟩ rfl ?_ ?_ ?_ ?_ ?_
    · refine filed_of_relocated hO.filed hrel hid ?_ ?_ ?_
      · intro z hz _ path hpath hzpath hpolicy
        obtain rfl : c.targetPath = path := some.inj hpath
        exact hunique z hz hzpath hpolicy.symm
      · intro body hhash _
        have hkey : c.targetHash = cfg.sha256 body := hhash
        have hsame : x.hash = cfg.sha256 body := hxhash.trans ((hc.key (.inr ⟨body, hkey⟩)).symm.trans hkey)
        refine ⟨?_, (hO.filed.placed x (Table.mem_of_get hx) body hsame hbacking).2⟩
        rw [← hkey, pathOf_ok hc.targetPath]
      · intro body hpath
        have hpath' : c.targetPath = (dedup cfg).path ⟨body, 0⟩ := some.inj hpath
        have hbody : cfg.storagePathFromBlobKey (cfg.sha256 body) = .ok c.targetPath := hpath' ▸ hlaw.path ⟨body, 0⟩
        exact ⟨hlaw.paths _ _ _ hc.targetPath hbody, hbacking⟩
    · intro key path hkey hpath
      obtain rfl : c.targetPath = path := some.inj hpath
      exact ⟨hlaw.paths _ _ _ hc.targetPath hkey, hbacking⟩
    · exact fun hempty => nomatch hbacking.symm.trans hempty
    · exact fun _ hkeyed => (hc.key hkeyed).trans hxhash.symm
    · intro hpos
      have hobject : cfg.target s.store c.targetPath = cfg.source s.store c := by
        unfold moveHolds at hholds
        rw [hx] at hholds
        rcases of_decide_eq_true hholds with hne | hle | hobject
        · exact absurd hsource hne
        · omega
        · exact hobject
      have hold : rowContent s.store.objects x = cfg.source s.store c := by
        rw [rowContent_stored hbacking hxpath, hsource]
        rfl
      rw [hold, ← hobject]
      exact rowContent_stored hbacking rfl

theorem stepMove_goes (hlaw : Law cfg) (hO : Orderly cfg s) (hI : Intact s) (hc : Copying cfg s.blobs c)
    (hg : ∀ now uuid, a = .ok now uuid → moveHolds cfg s c = true)
    (h : stepMove cfg s.store c a = some (r, n)) : Goes cfg s r n := by
  cases a with
  | ok now uuid =>
    rcases orFailed_ok (some.inj h) with h | ⟨rfl, e, rfl⟩
    · obtain ⟨⟨moved, s1⟩, hmove, hr⟩ := map_ok_iff.mp h
      obtain ⟨⟨moved', blobs⟩, hblobs, hmove⟩ := bind_ok hmove
      obtain ⟨rfl, rfl⟩ := ok_pair_inj hmove
      obtain ⟨rfl, rfl⟩ := Prod.mk.inj hr
      have hsafe : Safe cfg s (s.withBlobs blobs) none := .moved hlaw hO hI hc (hg now uuid rfl) hblobs
      have hkeep : Copying cfg blobs c := hc.keep hsafe.keeps
      refine ⟨.inr (hsafe.congr rfl rfl rfl), ?_⟩
      show LearnedNext cfg blobs (if moved' then _ else _)
      split_ifs
      · trivial
      · exact hkeep
    · exact .fail e
  | fails kind message =>
    obtain ⟨rfl, rfl⟩ := some_pair_inj h
    exact .fail _
  | _ => simp [stepMove, database] at h

/-! ### Objects of the target policy -/

theorem Safe.copied (hO : Orderly cfg s) (hI : Intact s) {object : Option Body} (h : copyHolds cfg s c object = true) :
    Safe cfg s { s with store := cfg.setTarget s.store c.targetPath object } except := by
  refine .wrote hO hI fun k b hb hpos hpolicy hpath => ?_
  rcases of_decide_eq_true h with hunused | hsame
  · exact absurd hpath (unused_ok hunused hb hpos hpolicy)
  · exact hsame

theorem Safe.removed (hO : Orderly cfg s) (hI : Intact s) {policyId : ℕ} {path : String}
    (h : unused s.blobs policyId path = true) : Safe cfg s (s.setObject policyId path none) except :=
  .wrote hO hI fun _ _ hb hpos hpolicy hpath => absurd hpath (unused_ok h hb hpos hpolicy)

theorem afterUpload_learned {body : Body} (hc : Copying cfg t c) : LearnedNext cfg t (afterUpload cfg c body) := by
  unfold afterUpload
  split_ifs
  all_goals exact hc

theorem stepPut_goes {body : Body} (hO : Orderly cfg s) (hI : Intact s) (hc : Copying cfg s.blobs c)
    (hg : ∀ object e, a = .writes object e → copyHolds cfg s c object = true)
    (h : stepPut cfg s.store c body a = some (r, n)) : Goes cfg s r n := by
  cases a with
  | writes object error =>
    have hsafe : Safe cfg s _ none := .copied hO hI (hg object error rfl)
    rcases error with _ | ⟨kind, message⟩
    · cases h
      exact ⟨.inr hsafe, afterUpload_learned hc⟩
    · cases h
      exact ⟨.inr hsafe, hc⟩
  | _ => simp [stepPut] at h

variable {u : Upload}

theorem nextPart_learned (hc : Copying cfg t u.copy) : LearnedNext cfg t (nextPart u) := by
  unfold nextPart
  split_ifs
  all_goals exact hc

theorem stepUploadPart_goes {attempt : ℕ} (hc : Copying cfg s.blobs u.copy)
    (h : stepUploadPart cfg s.store u attempt a = some (r, n)) : Goes cfg s r n := by
  have hreading (h : reading s.store (cfg.source s.store u.copy) (fun e => .goto (.abortUpload u.copy e))
      (fun body => nextPart (u.push body)) a = some (r, n)) : Goes cfg s r n := by
    obtain ⟨rfl, ⟨body, _, rfl⟩ | ⟨e, rfl⟩⟩ := reading_ok h
    · exact .stay (nextPart_learned hc)
    · exact .stay hc
  cases a with
  | writes object error =>
    rcases error with _ | ⟨kind, message⟩
    · exact hreading h
    · simp only [stepUploadPart] at h
      split_ifs at h
      all_goals
        cases h
        exact .stay hc
  | _ => exact hreading h

theorem stepFinishRange_goes (hc : Copying cfg s.blobs u.copy)
    (h : stepFinishRange cfg s.store u a = some (r, n)) : Goes cfg s r n := by
  obtain ⟨rfl, ⟨body, _, rfl⟩ | ⟨e, rfl⟩⟩ := reading_ok h
  · split_ifs
    all_goals exact .stay hc
  · exact .stay hc

theorem stepCompleteUpload_goes (hO : Orderly cfg s) (hI : Intact s) (hc : Copying cfg s.blobs u.copy)
    (hg : ∀ object e, a = .writes object e → copyHolds cfg s u.copy object = true)
    (h : stepCompleteUpload cfg s.store u a = some (r, n)) : Goes cfg s r n := by
  cases a with
  | writes object error =>
    have hsafe : Safe cfg s _ none := .copied hO hI (hg object error rfl)
    rcases error with _ | ⟨kind, message⟩
    · cases h
      exact ⟨.inr hsafe, afterUpload_learned hc⟩
    · cases h
      refine ⟨.inr hsafe, ?_⟩
      split_ifs
      all_goals exact hc
  | _ => simp [stepCompleteUpload] at h

theorem stepProbeCompleted_goes {error : AsterError} (hc : Copying cfg s.blobs u.copy)
    (h : stepProbeCompleted cfg s.store u error a = some (r, n)) : Goes cfg s r n := by
  obtain ⟨rfl, ⟨body, _, rfl⟩ | ⟨e, rfl⟩⟩ := reading_ok h
  · split_ifs
    · exact .stay (afterUpload_learned hc)
    · exact .stay hc
  · exact .stay hc

theorem GoalKnown.failed {goal : Goal} (h : GoalKnown cfg t goal) (e : AsterError) :
    LearnedNext cfg t (goal.failed e) := by
  cases goal with
  | merge _ _ => trivial
  | move _ => exact h

theorem GoalKnown.reached {goal : Goal} (h : GoalKnown cfg t goal) : LearnedNext cfg t goal.reached := by
  cases goal with
  | merge _ _ | move _ => exact h

theorem stepMetadata_goes {v : Check} (hv : GoalKnown cfg s.blobs v.goal)
    (h : stepMetadata cfg s.store v a = some (r, n)) : Goes cfg s r n := by
  obtain ⟨rfl, ⟨body, _, rfl⟩ | ⟨e, rfl⟩⟩ := reading_ok h
  · split_ifs
    · exact .stay (hv.failed _)
    · exact .stay hv
  · exact .stay (hv.failed _)

theorem stepReread_goes {v : Check} (hv : GoalKnown cfg s.blobs v.goal)
    (h : stepReread cfg s.store v a = some (r, n)) : Goes cfg s r n := by
  obtain ⟨rfl, ⟨body, _, rfl⟩ | ⟨e, rfl⟩⟩ := reading_ok h
  · split_ifs
    · exact .stay (hv.failed _)
    · exact .stay hv.reached
  · exact .stay (hv.failed _)

theorem afterCleanup_learned (error : Option AsterError) : LearnedNext cfg t (afterCleanup error) := by
  cases error with
  | none | some _ => trivial

theorem stepFindReference_goes {error : Option AsterError} (hc : Copying cfg s.blobs c)
    (h : stepFindReference cfg s.store c error a = some (r, n)) : Goes cfg s r n := by
  cases a with
  | ok now uuid =>
    cases h
    split_ifs
    · exact .stay (afterCleanup_learned _)
    · exact .stay hc
  | fails kind message =>
    cases h
    exact .stay (afterCleanup_learned _)
  | inactive =>
    simp only [stepFindReference] at h
    split_ifs at h
    cases h
    exact .stay (afterCleanup_learned _)
  | _ => simp [stepFindReference] at h

theorem stepDeleteTarget_goes {error : Option AsterError} (hO : Orderly cfg s) (hI : Intact s)
    (hg : ∀ e, pcHolds cfg s (.deleteTarget c e) a = true)
    (h : stepDeleteTarget cfg s.store c error a = some (r, n)) : Goes cfg s r n := by
  have hgone (h : unused s.blobs cfg.targetPolicyId c.targetPath = true) :
      Goes cfg s (cfg.setTarget s.store c.targetPath none) (afterCleanup error) :=
    ⟨.inr (.removed hO hI h), afterCleanup_learned _⟩
  cases a with
  | ok now uuid =>
    cases h
    exact hgone (hg error)
  | fails kind message =>
    cases h
    exact .stay (afterCleanup_learned _)
  | writes object e =>
    cases object with
    | none =>
      cases h
      exact hgone (hg error)
    | some body => simp [stepDeleteTarget] at h
  | inactive =>
    simp only [stepDeleteTarget] at h
    split_ifs at h
    cases h
    exact .stay (afterCleanup_learned _)
  | _ => simp [stepDeleteTarget] at h

/-- **A step of `migrate_one_blob` that does not merge.** -/
theorem stepBlob_goes {pc : Migration.Pc} (hlaw : Law cfg) (hO : Orderly cfg s) (hI : Intact s)
    (hpc : Learned cfg s.blobs pc) (hg : pcHolds cfg s pc a = true) (hmerge : ∀ latest target, pc ≠ .merge latest target)
    (h : stepBlob cfg s.store a pc = some (r, n)) : Goes cfg s r n := by
  cases pc with
  | find blob => exact stepFind_goes h
  | skip blobId =>
    rcases database_ok h with ⟨_, _, h⟩ | ⟨rfl, e, rfl⟩
    · cases h
      exact .advance
    · exact .fail e
  | findVirtual latest =>
    have habsent : LearnedNext cfg s.blobs (.goto (.moveVirtual latest)) := hpc
    exact stepFindVirtual_goes hpc habsent h
  | moveVirtual latest => exact stepMoveVirtual_goes hO hI hpc h
  | findVirtualAgain latest e =>
    have habsent : LearnedNext cfg s.blobs (.failed e) := trivial
    exact stepFindVirtual_goes hpc habsent h
  | findTarget latest => exact stepFindTarget_goes hlaw hpc.1 hpc.2.1 hpc.2.2 h
  | merge latest target => exact absurd rfl (hmerge latest target)
  | openSource c =>
    obtain ⟨rfl, ⟨body, _, rfl⟩ | ⟨e, rfl⟩⟩ := reading_ok h
    · exact .stay hpc
    · exact .fail e
  | put c body => exact stepPut_goes hO hI hpc (fun object e ha => by subst ha; exact hg) h
  | createUpload c partSize =>
    cases a with
    | ok now uuid =>
      cases h
      exact .stay (nextPart_learned hpc)
    | fails kind message =>
      cases h
      exact .fail _
    | _ => simp [stepBlob] at h
  | uploadPart u attempt => exact stepUploadPart_goes hpc h
  | finishRange u => exact stepFinishRange_goes hpc h
  | completeUpload u => exact stepCompleteUpload_goes hO hI hpc (fun object e ha => by subst ha; exact hg) h
  | probeCompleted u e => exact stepProbeCompleted_goes hpc h
  | abortUpload c e =>
    cases a with
    | ok now uuid | fails kind message =>
      cases h
      exact .stay hpc
    | _ => simp [stepBlob] at h
  | metadata v => exact stepMetadata_goes hpc h
  | reread v => exact stepReread_goes hpc h
  | move c => exact stepMove_goes hlaw hO hI hpc (fun now uuid ha => by subst ha; exact hg) h
  | findReference c e => exact stepFindReference_goes hpc h
  | deleteTarget c e => exact stepDeleteTarget_goes hO hI (fun _ => by cases a <;> exact hg) h

/-! ### Merges -/

variable {w : Worker}

theorem handOver_same (hdb : r.db = s.store.db) : handOver w s r = { s with store := r } := by
  unfold handOver
  split
  · next old target _ =>
    rw [if_neg]
    rintro ⟨hany, hnone⟩
    rw [hdb] at hnone
    rcases hx : s.blobs.get old.id with _ | x
    · rw [hx] at hany
      exact nomatch hany
    · rw [show s.store.db.blobs.get old.id = some x from hx] at hnone
      exact nomatch hnone
  · rfl

theorem handOver_gone (hw : merging w = some (latest, target)) (hx : s.blobs.get latest.id = some x)
    (hnone : r.db.blobs.get latest.id = none) :
    handOver w s r = ⟨r, if 0 < x.refCount then
      Function.update s.written target.id (s.written latest.id ++ s.written target.id) else s.written⟩ := by
  unfold handOver
  rw [hw]
  dsimp only
  rw [hx, hnone]
  by_cases hpos : 0 < x.refCount
  · rw [if_pos hpos, if_pos ⟨decide_eq_true hpos, rfl⟩]
  · rw [if_neg hpos, if_neg fun h => hpos (of_decide_eq_true h.1)]

/-- The row of a merge that leaves the source policy, and the one that takes its references. -/
structure Pair (cfg : Setup) (s : Shared) (x y : FileBlob) : Prop where
  source : x.policyId = cfg.sourcePolicyId
  policy : y.policyId = cfg.targetPolicyId
  backing : y.backing = x.backing
  key : x.backing = .stored → Keyed cfg x.hash ∧ y.hash = x.hash
  body : 0 < x.refCount → x.backing = .stored →
    ∃ body, rowContent s.store.objects y = some body ∧ cfg.sha256 body = x.hash

theorem Safe.merged {y : FileBlob} {db' : Db} {now : ℕ} (hlaw : Law cfg) (hO : Orderly cfg s)
    (hI : Intact s) (hw : merging w = some (latest, target)) (hx : s.blobs.get latest.id = some x)
    (hy : s.blobs.get target.id = some y) (hpair : Pair cfg s x y)
    (htransfer : transferReferences s.store.db x y now = .ok db') (hdb : r.db = db')
    (hobjects : r.objects = s.store.objects) : Safe cfg s (handOver w s r) none := by
  have hxid : x.id = latest.id := Table.key_of_get hx
  have hyid : y.id = target.id := Table.key_of_get hy
  have hne : x.id ≠ y.id := by
    intro heq
    have hsame : latest.id = target.id := hxid.symm.trans (heq.trans hyid)
    obtain rfl : x = y := some.inj (hx.symm.trans ((congrArg _ hsame).trans hy))
    exact hlaw.distinct (hpair.source.symm.trans hpair.policy)
  obtain ⟨m, hm, ht⟩ := transferReferences_ok hne htransfer
  obtain ⟨hnext, hactive⟩ := transferReferences_next htransfer
  rw [hxid, hyid, ← hdb] at ht
  rw [← hdb] at hnext
  have hgone : r.db.blobs.get latest.id = none := (ht.blobs _).trans (if_pos rfl)
  rw [handOver_gone hw hx hgone]
  refine .transferred hlaw hO hI hobjects ht hnext hx hy hm (fun hpos => ?_) hpair.backing hpair.key hpair.body
  obtain ⟨y', hy', hnonneg⟩ := hactive hpos
  rw [hyid] at hy'
  obtain rfl : y = y' := some.inj (hy.symm.trans hy')
  exact hnonneg

theorem stepMerge_safe (hlaw : Law cfg) (hO : Orderly cfg s) (hI : Intact s)
    (hw : merging w = some (latest, target)) (hm : Merging cfg s.blobs latest target)
    (hg : ∀ now uuid, a = .ok now uuid → mergeHolds cfg s latest target = true)
    (h : stepMerge s.store latest target a = some (r, n)) :
    Safe cfg s (handOver w s r) none ∧ LearnedNext cfg r.db.blobs n := by
  have hstay : ∀ {r' : Store}, r'.db = s.store.db → r'.objects = s.store.objects →
      Safe cfg s (handOver w s r') none := by
    intro r' hdb hobjects
    rw [handOver_same hdb]
    exact (Safe.refl hO hI).congr (congrArg Db.blobs hdb) rfl hobjects
  cases a with
  | ok now uuid =>
    have hholds := hg now uuid rfl
    rcases orFailed_ok (some.inj h) with h | ⟨rfl, e, rfl⟩
    · obtain ⟨s1, hmerge, hr⟩ := map_ok_iff.mp h
      cases hr
      refine ⟨?_, trivial⟩
      obtain ⟨x, hx, hmerge⟩ := bind_ok hmerge
      have hx' : s.blobs.get latest.id = some x := findBlobById_ok hx
      split_ifs at hmerge with hpolicy
      · cases hmerge
        exact hstay rfl rfl
      · obtain ⟨y, hy, hmerge⟩ := bind_ok hmerge
        have hy' : s.blobs.get target.id = some y := findBlobById_ok hy
        split_ifs at hmerge with hmatch
        obtain ⟨db', htransfer, hmerge⟩ := bind_ok hmerge
        cases hmerge
        have hsource : x.policyId = cfg.sourcePolicyId := (not_not.mp hpolicy).trans hm.source
        have hxeq := (hm.read.became x hx').still hlaw.distinct hsource
        have hyeq := (hm.found.became y hy').settled hlaw.distinct hm.policy
        have hxback : x.backing = latest.backing := by rw [hxeq]
        have hyback : y.backing = x.backing := by
          rw [hyeq, hxback]
          exact hm.backing
        have hxhash : x.hash = latest.hash := by rw [hxeq]
        have hypolicy : y.policyId = cfg.targetPolicyId := by
          rw [hyeq]
          exact hm.policy
        refine .merged hlaw hO hI hw hx' hy' ⟨hsource, hypolicy, hyback, fun hstored => ⟨?_, ?_⟩, fun hpos hstored => ?_⟩
          htransfer rfl rfl
        · rw [hxhash]
          exact .inl (hm.key (hxback.symm.trans hstored))
        · exact not_not.mp fun hne => hmatch (.inl hne)
        · -- the object is the one that the key names
          unfold mergeHolds at hholds
          rw [hx'] at hholds
          rcases of_decide_eq_true hholds with hne | hempty | hle | hdigest
          · exact absurd hsource hne
          · exact nomatch hempty.symm.trans (hxback.symm.trans hstored)
          · omega
          · rw [content_of_get hy'] at hdigest
            obtain ⟨body, hbody, hsha⟩ := map_eq_some_iff.mp hdigest
            exact ⟨body, hbody, hsha.trans hxhash.symm⟩
    · exact ⟨hstay rfl rfl, trivial⟩
  | fails kind message =>
    cases h
    exact ⟨hstay rfl rfl, trivial⟩
  | _ => simp [stepMerge, database] at h

theorem recoverVirtualEmpty_safe {hasStored : Bool} {cursor now : ℕ} {found : Option FileBlob} (hlaw : Law cfg)
    (hO : Orderly cfg s) (hI : Intact s)
    (hK : Knows cfg s.blobs (.migration (.recoverVirtual hasStored cursor b found)))
    (h : recoverVirtualEmpty cfg s.store cursor b now found = .ok r) :
    Safe cfg s (handOver (.recoverVirtual hasStored cursor b found) s r) none := by
  obtain ⟨hv, hfound⟩ := hK
  cases found with
  | none =>
    obtain ⟨⟨moved, blobs⟩, hblobs, h⟩ := bind_ok h
    cases h
    have hsafe : Safe cfg s (s.withBlobs blobs) none := .movedVirtual hO hI hblobs
    exact hsafe.congr rfl rfl rfl
  | some target =>
    obtain ⟨hread, hpolicy, hempty⟩ := hfound target rfl
    obtain ⟨x, hx, h⟩ := bind_ok h
    have hx' : s.blobs.get b.id = some x := findBlobById_ok hx
    split_ifs at h with hsource
    · cases h
      have hdb : (s.store.advance b.id cursor skippedOne none).db = s.store.db := rfl
      rw [handOver_same hdb]
      exact (Safe.refl hO hI).congr rfl rfl rfl
    · obtain ⟨y, hy, h⟩ := bind_ok h
      have hy' : s.blobs.get target.id = some y := findBlobById_ok hy
      split_ifs at h with hbacking
      obtain ⟨db', htransfer, h⟩ := bind_ok h
      cases h
      have hxback : x.backing = .virtualEmpty := (hv.read.became x hx').1.trans hv.empty
      have hyeq := (hread.became y hy').settled hlaw.distinct hpolicy
      have hypolicy : y.policyId = cfg.targetPolicyId := by
        rw [hyeq]
        exact hpolicy
      have hpair : Pair cfg s x y := by
        refine ⟨not_not.mp hsource, hypolicy, (not_not.mp hbacking).trans hxback.symm, fun hstored => ?_,
          fun _ hstored => ?_⟩
        all_goals exact nomatch hxback.symm.trans hstored
      exact .merged hlaw hO hI rfl hx' hy' hpair htransfer rfl rfl

/-! ### The task -/

variable {w' : Worker}

theorem worker_stay (hO : Orderly cfg s) (hI : Intact s) (hdb : r.db = s.store.db)
    (hobjects : r.objects = s.store.objects) (hk : Knows cfg s.blobs (.migration w')) :
    Safe cfg s (handOver w s r) none ∧ Knows cfg r.db.blobs (.migration w') := by
  rw [handOver_same hdb]
  refine ⟨(Safe.refl hO hI).congr (congrArg Db.blobs hdb) rfl hobjects, ?_⟩
  rw [hdb]
  exact hk

theorem statement_stay {run : ℕ → Store × Worker} (hO : Orderly cfg s) (hI : Intact s)
    (h : statement s.store a run = some (r, w'))
    (hrun : ∀ now, (run now).1.db = s.store.db ∧ (run now).1.objects = s.store.objects ∧
      Knows cfg s.blobs (.migration (run now).2)) :
    Safe cfg s (handOver w s r) none ∧ Knows cfg r.db.blobs (.migration w') := by
  rcases statement_ok h with ⟨now, h⟩ | ⟨rfl, rfl⟩
  · have hnow := hrun now
    rw [h] at hnow
    exact worker_stay hO hI hnow.1 hnow.2.1 hnow.2.2
  · exact worker_stay hO hI rfl rfl trivial

theorem afterRecovery_knows (hasStored : Bool) (cursor : ℕ) :
    Knows cfg t (.migration (afterRecovery hasStored cursor)) := by
  cases hasStored with
  | false | true => trivial

theorem nextBlob_knows (cursor : ℕ) (rest : List FileBlob) : Knows cfg t (.migration (nextBlob cursor rest)) := by
  cases rest with
  | nil | cons _ _ => trivial

theorem afterBlob_knows {rest : List FileBlob} (h : LearnedNext cfg t n) :
    Knows cfg t (.migration (afterBlob cfg id rest n)) := by
  cases n with
  | goto pc => exact h
  | done => trivial
  | failed e =>
    unfold afterBlob afterFailure
    dsimp only
    split_ifs
    all_goals trivial

/-- **A step of a migration.** -/
theorem stepWorker_safe (hlaw : Law cfg) (hO : Orderly cfg s) (hI : Intact s)
    (hK : Knows cfg s.blobs (.migration w)) (hg : StillHolds cfg s (.migration w) (.migrate a))
    (h : stepWorker cfg s.store a w = some (r, w')) :
    Safe cfg s (handOver w s r) none ∧ Knows cfg r.db.blobs (.migration w') := by
  cases w with
  | idle =>
    cases a with
    | claim =>
      simp only [stepWorker] at h
      split_ifs at h
      cases h
      exact worker_stay hO hI rfl rfl trivial
    | _ => simp [stepWorker] at h
  | prepare | setStage hasStored | setRecoveryStage hasStored cursor | recordFailure blobId error rest
  | complete | countRemaining | markSucceeded remaining => exact statement_stay hO hI h fun _ => ⟨rfl, rfl, trivial⟩
  | loadCheckpoint hasStored | page cursor =>
    refine statement_stay hO hI h fun _ => ⟨rfl, rfl, ?_⟩
    split
    all_goals trivial
  | findRecoverySource hasStored cursor =>
    refine statement_stay hO hI h fun _ => ⟨rfl, rfl, ?_⟩
    split
    · exact afterRecovery_knows hasStored cursor
    · next source hfind =>
      obtain ⟨hget, hp⟩ := mem_of_find hfind
      obtain ⟨_, hpolicy, hbacking⟩ := of_decide_eq_true hp
      exact ⟨.of_get hget, hpolicy, hbacking⟩
  | findRecoveryTarget hasStored cursor source =>
    refine statement_stay hO hI h fun _ => ⟨rfl, rfl, hK, fun target htarget => ?_⟩
    obtain ⟨hget, hp⟩ := mem_of_find htarget
    obtain ⟨_, hpolicy, hbacking⟩ := of_decide_eq_true hp
    exact ⟨.of_get hget, hpolicy, hbacking⟩
  | recoverVirtual hasStored cursor source found =>
    rcases statement_ok h with ⟨now, h⟩ | ⟨rfl, rfl⟩
    · rcases orFailed_ok h with h | ⟨rfl, e, rfl⟩
      · obtain ⟨s1, hrecover, hr⟩ := map_ok_iff.mp h
        cases hr
        exact ⟨recoverVirtualEmpty_safe hlaw hO hI hK hrecover, afterRecovery_knows hasStored cursor⟩
      · exact worker_stay hO hI rfl rfl trivial
    · exact worker_stay hO hI rfl rfl trivial
  | blob blobId pc rest =>
    obtain ⟨⟨r', n⟩, hblob, hr⟩ := map_eq_some_iff.mp h
    cases hr
    by_cases hmerge : ∃ latest target, pc = .merge latest target
    · obtain ⟨latest, target, rfl⟩ := hmerge
      have hgm : ∀ now uuid, a = .ok now uuid → mergeHolds cfg s latest target = true :=
        fun now uuid ha => by subst ha; exact hg
      obtain ⟨hsafe, hn⟩ := stepMerge_safe hlaw hO hI
        (show merging (.blob blobId (.merge latest target) rest) = some (latest, target) from rfl) hK hgm hblob
      exact ⟨hsafe, afterBlob_knows hn⟩
    · have hne : ∀ latest target, pc ≠ .merge latest target := fun latest target heq => hmerge ⟨latest, target, heq⟩
      have hgoes := stepBlob_goes hlaw hO hI hK hg hne hblob
      have hnone : merging (.blob blobId pc rest) = none := by
        cases pc with
        | merge latest target => exact absurd rfl (hne latest target)
        | _ => rfl
      have hstore : handOver (.blob blobId pc rest) s r' = { s with store := r' } := by
        unfold handOver
        rw [hnone]
      rw [hstore]
      exact ⟨hgoes.safe hO hI, afterBlob_knows hgoes.2⟩
  | reload rest => exact statement_stay hO hI h fun _ => ⟨rfl, rfl, nextBlob_knows _ rest⟩

theorem stepMigration_safe {p' : Proc} (hlaw : Law cfg) (hO : Orderly cfg s) (hI : Intact s)
    (hK : Knows cfg s.blobs (.migration w)) (hg : StillHolds cfg s (.migration w) (.migrate a))
    (h : stepMigration cfg w s a = some (s', p')) :
    Safe cfg s s' none ∧ Knows cfg s'.blobs p' ∧ p'.claimed = none := by
  obtain ⟨⟨r, w'⟩, hstep, hr⟩ := map_eq_some_iff.mp h
  cases hr
  have hblobs : (handOver w s r).blobs = r.db.blobs := by
    unfold handOver
    split
    · split_ifs <;> rfl
    · rfl
  have hgoal : Safe cfg s (handOver w s r) none ∧ Knows cfg r.db.blobs (.migration w') := by
    cases a with
    | crash =>
      cases hstep
      exact worker_stay hO hI rfl rfl trivial
    | _ => exact stepWorker_safe hlaw hO hI hK hg hstep
  rw [hblobs]
  exact ⟨hgoal.1, hgoal.2, rfl⟩

end

end AsterDrive.Storage.MigrationRaces
