import AsterDrive.Storage.MigrationRefs

/-!
# Storage/MigrationOnce — one worker, any number of attempts

While only the migration writes, a worker knows a good deal: the rows of its batch are as it read them, nobody's object
is where it writes, and what it has verified stays so. `Knows` says this for each point at which a worker can stand.
A step of `migrate_one_blob` then either touches nothing that a reference can see (`Quiet`), or takes the blob out of
the source policy and counts it in the same transaction (`Handled`). That is what makes a stop at any point harmless.
-/

namespace AsterDrive.Storage.Migration

open Db List Option Table

variable (cfg : Setup)

/-! ### What the worker relies on -/

/-- Digests and paths tell contents and keys apart; a policy is not migrated to itself
(`validate_storage_policy_migration_input`). -/
structure Setup.Law : Prop where
  distinct : cfg.sourcePolicyId ≠ cfg.targetPolicyId
  sha256 : Function.Injective cfg.sha256
  paths : ∀ key key' path, cfg.storagePathFromBlobKey key = .ok path → cfg.storagePathFromBlobKey key' = .ok path →
    key = key'

/-- An empty blob has no path (`validate_backing`); in the target policy the path of a key belongs to the stored blob
with this key. -/
structure Placed (b : FileBlob) : Prop where
  empty : b.backing = .virtualEmpty → b.storagePath = none
  owned : b.policyId = cfg.targetPolicyId → ∀ key path, cfg.storagePathFromBlobKey key = .ok path →
    b.storagePath = some path → b.hash = key ∧ b.backing = .stored

def Owned (t : Blobs) : Prop := ∀ k b, t.get k = some b → Placed cfg b

/-- Every row counts its references. -/
def Counted (db : Db) : Prop := ∀ k b, db.blobs.get k = some b → b.refCount = currentBlobRefCount db k

/-- Every scanned blob has one outcome, and the log lists them. -/
structure Tally (s : Store) : Prop where
  scanned : s.checkpoint.scannedBlobs = s.checkpoint.migratedBlobs + s.checkpoint.mergedBlobs
    + s.checkpoint.skippedBlobs + s.checkpoint.failedBlobs
  log : s.checkpoint.scannedBlobs = s.counted.length

/-! ### What a step does -/

/-- A step that no reference can see. -/
structure Quiet (s s' : Store) : Prop where
  db : s'.db = s.db
  checkpoint : s'.checkpoint = s.checkpoint
  counted : s'.counted = s.counted
  content : ∀ k, content s' k = content s k
  source : ∀ path, s'.objects cfg.sourcePolicyId path = s.objects cfg.sourcePolicyId path
  succeeded : s'.succeeded = s.succeeded

/-- The blob `id` has left the source policy, and was counted. -/
structure Handled (s s' : Store) (id : ℕ) : Prop where
  carries : ∃ r, Carries cfg s s' r
  owned : Owned cfg s.db.blobs → Owned cfg s'.db.blobs
  counts : Counted s.db → Counted s'.db
  tally : Tally s → Tally s'
  left : ∀ k, InSource cfg s' k ↔ InSource cfg s k ∧ k ≠ id
  rows : ∀ k, k ≠ id → InSource cfg s k → s'.db.blobs.get k = s.db.blobs.get k
  log : s'.counted = s.counted ++ [id]
  cursor : cfg.mode = .normal → s'.checkpoint.lastProcessedBlobId = id
  succeeded : s'.succeeded = s.succeeded

/-! ### What the worker knows -/

/-- The row is in the source policy, as the worker read it. -/
def Current (t : Blobs) (b : FileBlob) : Prop := t.get b.id = some b ∧ b.policyId = cfg.sourcePolicyId

/-- The blob can be copied to a path that no row has. -/
structure CopyReady (t : Blobs) (id : ℕ) (c : Copy) : Prop where
  id : c.blob.id = id
  current : Current cfg t c.blob
  stored : c.blob.backing = .stored
  sourcePath : c.blob.storagePath = some c.sourcePath
  targetPath : cfg.storagePathFromBlobKey c.targetHash = .ok c.targetPath
  free : findBlobByHash t c.targetHash cfg.targetPolicyId = none

/-- Two rows, one in each policy. -/
structure MergeReady (t : Blobs) (id : ℕ) (latest target : FileBlob) : Prop where
  id : latest.id = id
  current : Current cfg t latest
  found : t.get target.id = some target
  policy : target.policyId = cfg.targetPolicyId

/-- The two rows have the same content, or the key of both names the content of the target. -/
def SameContent (s : Store) (latest target : FileBlob) : Prop :=
  (latest.backing = .virtualEmpty ∧ target.backing = .virtualEmpty) ∨
    (latest.backing = .stored ∧ isContentSha256BlobKey latest.hash = true ∧
      ∃ body, content s target.id = some body ∧ cfg.sha256 body = latest.hash)

/-- What is to be verified. -/
def KnowsCheck (s : Store) (id : ℕ) (v : Check) : Prop :=
  match v.goal with
  | .merge latest target => MergeReady cfg s.db.blobs id latest target ∧ latest.backing = .stored ∧
      isContentSha256BlobKey latest.hash = true ∧ target.backing = .stored ∧ target.storagePath = some v.path ∧
      v.hash = latest.hash
  | .move c => CopyReady cfg s.db.blobs id c ∧ v.path = c.targetPath ∧
      ∃ body, cfg.source s c = some body ∧ v.hash = cfg.sha256 body

def KnowsPc (s : Store) (id : ℕ) : Pc → Prop
  | .find blob => blob.id = id ∧ Current cfg s.db.blobs blob
  | .skip _ => False
  | .findVirtual latest | .moveVirtual latest | .findVirtualAgain latest _ =>
    latest.id = id ∧ Current cfg s.db.blobs latest ∧ latest.backing = .virtualEmpty
  | .findTarget latest => latest.id = id ∧ Current cfg s.db.blobs latest ∧ latest.backing = .stored
  | .merge latest target => MergeReady cfg s.db.blobs id latest target ∧ SameContent cfg s latest target
  | .openSource c | .abortUpload c _ | .createUpload c _ => CopyReady cfg s.db.blobs id c
  | .put c body => CopyReady cfg s.db.blobs id c ∧ cfg.source s c = some body
  | .uploadPart u _ | .finishRange u => CopyReady cfg s.db.blobs id u.copy ∧
      ∀ body, cfg.source s u.copy = some body → u.read = body.take u.offset
  | .completeUpload u | .probeCompleted u _ =>
    CopyReady cfg s.db.blobs id u.copy ∧ cfg.source s u.copy = some u.read
  | .metadata v | .reread v => KnowsCheck cfg s id v
  | .move c => CopyReady cfg s.db.blobs id c ∧
      ∃ body, cfg.source s c = some body ∧ cfg.target s c.targetPath = some body
  | .findReference c error | .deleteTarget c error => CopyReady cfg s.db.blobs id c ∧ error.isSome

def KnowsNext (s : Store) (id : ℕ) : Next → Prop
  | .goto pc => KnowsPc cfg s id pc
  | .done => False
  | .failed _ => True

/-- The rest of a batch, in order, behind the blob `id`. -/
structure Queue (t : Blobs) (rest : List FileBlob) : Prop where
  ascending : rest.Pairwise fun a b => a.id < b.id
  current : ∀ b ∈ rest, Current cfg t b

def Knows (s : Store) : Worker → Prop
  | .findRecoverySource _ _ | .setRecoveryStage _ _ => cfg.mode = .recoverAvailable
  | .findRecoveryTarget _ _ b => cfg.mode = .recoverAvailable ∧ Current cfg s.db.blobs b ∧ b.backing = .virtualEmpty
  | .recoverVirtual _ _ b target => cfg.mode = .recoverAvailable ∧ Current cfg s.db.blobs b ∧
      b.backing = .virtualEmpty ∧ ∀ t ∈ target, s.db.blobs.get t.id = some t ∧ t.policyId = cfg.targetPolicyId
  | .blob id pc rest => KnowsPc cfg s id pc ∧ Queue cfg s.db.blobs rest ∧ ∀ b ∈ rest, id < b.id
  | .recordFailure _ _ rest => cfg.mode = .recoverAvailable ∧ Queue cfg s.db.blobs rest
  | .reload rest => Queue cfg s.db.blobs rest
  | _ => True

section

variable {cfg} {s s' s₀ : Store} {id k : ℕ} {a : Act} {n : Next} {c : Copy} {b latest target : FileBlob}

/-! ### Rows and objects -/

variable {t : Blobs}

theorem mem_of_find {p : FileBlob → Bool} (h : t.rows.find? p = some b) : t.get b.id = some b ∧ p b = true :=
  ⟨get_of_mem (mem_of_find?_eq_some h), find?_some h⟩

theorem CopyReady.unreferenced (h : CopyReady cfg t id c) (hO : Owned cfg t) (hb : t.get k = some b)
    (hpolicy : b.policyId = cfg.targetPolicyId) : b.storagePath ≠ some c.targetPath := by
  intro hpath
  obtain ⟨hhash, hstored⟩ := (hO k b hb).owned hpolicy _ _ h.targetPath hpath
  have hnone := find?_eq_none.mp h.free b (mem_of_get hb)
  exact hnone (decide_eq_true ⟨hhash, hpolicy, hstored⟩)

theorem Quiet.write {path : String} (hlaw : cfg.Law) (hfree : ∀ k b, s.db.blobs.get k = some b →
    b.policyId = cfg.targetPolicyId → b.storagePath ≠ some path) (object : Option Body) :
    Quiet cfg s (cfg.setTarget s path object) := by
  have hother : ∀ policyId q, ¬ (policyId = cfg.targetPolicyId ∧ q = path) →
      (cfg.setTarget s path object).objects policyId q = s.objects policyId q := fun policyId q hne => if_neg hne
  refine ⟨rfl, rfl, rfl, fun k => ?_, fun q => hother _ _ fun h => hlaw.distinct h.1, rfl⟩
  show (s.db.blobs.get k).bind _ = (s.db.blobs.get k).bind _
  rcases hk : s.db.blobs.get k with _ | b
  · rfl
  · rw [bind_some, bind_some]
    rcases hbacking : b.backing with _ | _
    · show b.storagePath.bind _ = b.storagePath.bind _
      rcases hpath : b.storagePath with _ | q
      · rfl
      · exact hother _ _ fun h => hfree k b hk h.1 (h.2 ▸ hpath)
    · rfl

theorem Quiet.refl (s : Store) : Quiet cfg s s := ⟨rfl, rfl, rfl, fun _ => rfl, fun _ => rfl, rfl⟩

theorem InSource.congr (hdb : s'.db = s.db) (k : ℕ) : InSource cfg s' k ↔ InSource cfg s k := by
  unfold InSource
  rw [hdb]

theorem CopyReady.write (hlaw : cfg.Law) (h : CopyReady cfg s.db.blobs id c) (hO : Owned cfg s.db.blobs)
    (object : Option Body) : Quiet cfg s (cfg.setTarget s c.targetPath object) :=
  .write hlaw (fun _ _ hb hpolicy => h.unreferenced hO hb hpolicy) object

theorem Carries.of_same (hdb : s'.db = s.db) (hcontent : ∀ k, content s' k = content s k) :
    Carries cfg s s' fun k => k := by
  refine ⟨?_, fun k _ => .inl ⟨rfl, by rw [hdb], hcontent k⟩, fun k hk => ⟨rfl, ?_, hcontent k⟩⟩
  · show references s'.db = (references s.db).map fun p => p
    rw [List.map_id', hdb]
  · rwa [InSource.congr hdb]

/-! ### A blob is handled -/

variable {outcome : BlobMigrationOutcome}

theorem Tally.advance {db : Db} (h : Tally s) (cursor : ℕ) (e : Option String) (hone : outcome.scanned = 1)
    (hsum : outcome.scanned = outcome.migrated + outcome.merged + outcome.skipped + outcome.failed) :
    Tally ({ s with db }.advance id cursor outcome e) := by
  obtain ⟨hscanned, hlog⟩ := h
  refine ⟨?_, ?_⟩
  · show s.checkpoint.scannedBlobs + outcome.scanned = s.checkpoint.migratedBlobs + outcome.migrated
      + (s.checkpoint.mergedBlobs + outcome.merged) + (s.checkpoint.skippedBlobs + outcome.skipped)
      + (s.checkpoint.failedBlobs + outcome.failed)
    omega
  · show s.checkpoint.scannedBlobs + outcome.scanned = (s.counted ++ [id]).length
    rw [length_append, length_singleton, ← hlog, hone]

variable {cursor : ℕ}

/-- The row of a blob has moved to the target policy, where the blob has the same content. -/
theorem handled_of_relocated {blobs : Blobs} {b' : FileBlob}
    (hlaw : cfg.Law) (hb : s.db.blobs.get id = some b) (hsource : b.policyId = cfg.sourcePolicyId)
    (hrel : Relocated s.db.blobs blobs id b') (hpolicy : b'.policyId = cfg.targetPolicyId)
    (hcount : b'.refCount = b.refCount)
    (hplaced : Placed cfg b')
    (hcontent : content { s with db := { s.db with blobs } } id = content s id)
    (hone : outcome.scanned = 1)
    (hsum : outcome.scanned = outcome.migrated + outcome.merged + outcome.skipped + outcome.failed)
    (hcursor : cfg.mode = .normal → cursor = id) :
    Handled cfg s ({ s with db := { s.db with blobs } }.advance id cursor outcome none) id := by
  have hmoved : ¬ InSource cfg ({ s with db := { s.db with blobs } }.advance id cursor outcome none) id := by
    rw [InSource.of_get (b := b') ((hrel id).trans (if_pos rfl)), hpolicy]
    exact Ne.symm hlaw.distinct
  have hsame : ∀ j, j ≠ id → blobs.get j = s.db.blobs.get j := fun j hj => (hrel j).trans (if_neg hj)
  have hother : ∀ j, j ≠ id →
      content ({ s with db := { s.db with blobs } }.advance id cursor outcome none) j = content s j := by
    intro j hj
    show (blobs.get j).bind _ = (s.db.blobs.get j).bind _
    rw [hsame j hj]
    rfl
  have hin : InSource cfg s id := ⟨b, hb, hsource⟩
  refine ⟨⟨fun j => j, ?_, fun j hj => ?_, fun j hj => ?_⟩, fun hO j x hx => ?_, fun hC j x hx => ?_,
    fun hT => hT.advance cursor none hone hsum, fun j => ?_, fun j hj _ => hsame j hj, rfl, hcursor, rfl⟩
  · show references s.db = (references s.db).map fun p => p
    rw [List.map_id']
  · by_cases hid : j = id
    · subst hid
      exact .inr ⟨hmoved, .of_eq hcontent⟩
    · exact .inl ⟨rfl, hsame j hid, hother j hid⟩
  · have hid : j ≠ id := fun h => hj (h ▸ hin)
    refine ⟨rfl, ?_, hother j hid⟩
    rintro ⟨x, hx, hxp⟩
    exact hj ⟨x, (hsame j hid).symm.trans hx, hxp⟩
  · have hx' := (hrel j).symm.trans hx
    split_ifs at hx'
    · cases hx'
      exact hplaced
    · exact hO j x hx'
  · have hx' := (hrel j).symm.trans hx
    show x.refCount = currentBlobRefCount s.db j
    split_ifs at hx' with hid
    · cases hx'
      rw [hcount, hid]
      exact hC id b hb
    · exact hC j x hx'
  · constructor
    · intro hj
      have hid : j ≠ id := fun h => hmoved (h ▸ hj)
      obtain ⟨x, hx, hxp⟩ := hj
      exact ⟨⟨x, (hsame j hid).symm.trans hx, hxp⟩, hid⟩
    · rintro ⟨⟨x, hx, hxp⟩, hid⟩
      exact ⟨x, (hsame j hid).trans hx, hxp⟩

variable {db' : Db} {old now : ℕ}

theorem Transferred.row {db : Db} {target n : ℕ} {x : FileBlob}
    (h : Transferred db db' old target n now) (hx : db'.blobs.get k = some x) :
    k ≠ old ∧ ∃ b, db.blobs.get k = some b ∧ x = { b with refCount := b.refCount + if k = target then (n : ℤ) else 0 } := by
  rw [h.blobs k] at hx
  by_cases hold : k = old
  · rw [if_pos hold] at hx
    simp at hx
  · rw [if_neg hold] at hx
    obtain ⟨b, hb, rfl⟩ := map_eq_some_iff.mp hx
    refine ⟨hold, b, hb, ?_⟩
    split_ifs
    · rfl
    · rw [add_zero]

theorem Transferred.content {target n : ℕ} (h : Transferred s.db db' old target n now)
    (hk : k ≠ old) : content { s with db := db' } k = content s k := by
  show (db'.blobs.get k).bind _ = (s.db.blobs.get k).bind _
  rw [h.blobs k, if_neg hk]
  rcases s.db.blobs.get k with _ | b
  · rfl
  · rw [map_some, bind_some, bind_some]
    split_ifs <;> rfl

theorem Transferred.inSource {target n : ℕ} (h : Transferred s.db db' old target n now) :
    InSource cfg { s with db := db' } k ↔ InSource cfg s k ∧ k ≠ old := by
  constructor
  · rintro ⟨x, hx, hpolicy⟩
    obtain ⟨hk, b, hb, rfl⟩ := h.row hx
    exact ⟨⟨b, hb, hpolicy⟩, hk⟩
  · rintro ⟨⟨b, hb, hpolicy⟩, hk⟩
    refine ⟨if k = target then { b with refCount := b.refCount + n } else b, ?_, ?_⟩
    · show db'.blobs.get k = _
      rw [h.blobs k, if_neg hk, hb, map_some]
    · split_ifs <;> exact hpolicy

/-- The references of a blob have gone over to one of the target policy that has its content. -/
theorem handled_of_transferred {n : ℕ} (hlaw : cfg.Law)
    (hready : MergeReady cfg s.db.blobs id latest target) (hsame : SameContent cfg s latest target)
    (hn : latest.refCount = n) (h : Transferred s.db db' latest.id target.id n now) (hone : outcome.scanned = 1)
    (hsum : outcome.scanned = outcome.migrated + outcome.merged + outcome.skipped + outcome.failed)
    (hcursor : cfg.mode = .normal → cursor = id) :
    Handled cfg s ({ s with db := db' }.advance id cursor outcome none) id := by
  obtain ⟨rfl, ⟨hget, hsource⟩, hfound, hpolicy⟩ := hready
  have hne : target.id ≠ latest.id := by
    intro hid
    rw [hid, hget] at hfound
    rw [← some.inj hfound, hsource] at hpolicy
    exact hlaw.distinct hpolicy
  have hnotin : ¬ InSource cfg s target.id := by
    rw [InSource.of_get hfound, hpolicy]
    exact Ne.symm hlaw.distinct
  have hleft : ∀ k, InSource cfg ({ s with db := db' }.advance latest.id cursor outcome none) k ↔
      InSource cfg s k ∧ k ≠ latest.id := fun k => h.inSource
  have hcontent : ∀ k, k ≠ latest.id →
      content ({ s with db := db' }.advance latest.id cursor outcome none) k = content s k := fun k hk => h.content hk
  have hrows : ∀ k, k ≠ latest.id → InSource cfg s k → db'.blobs.get k = s.db.blobs.get k := by
    intro k hk hin
    rw [h.blobs k, if_neg hk]
    rcases hb : s.db.blobs.get k with _ | b
    · rfl
    · rw [map_some, if_neg]
      exact fun hkt => hnotin (hkt ▸ hin)
  have hresolves : Resolves cfg s ({ s with db := db' }.advance latest.id cursor outcome none) latest.id target.id := by
    have htarget := hcontent target.id hne
    rcases hsame with ⟨hempty, hempty'⟩ | ⟨hstored, hkey, body, hbody, hdigest⟩
    · refine .of_eq (htarget.trans ?_)
      unfold content
      rw [hget, hfound, bind_some, bind_some, hempty, hempty']
    · by_cases hintact : (content s latest.id).map cfg.sha256 = some latest.hash
      · -- the source object has the digest too
        obtain ⟨body', hbody', hdigest'⟩ := map_eq_some_iff.mp hintact
        obtain rfl := hlaw.sha256 (hdigest'.trans hdigest.symm)
        exact .of_eq (htarget.trans (hbody.trans hbody'.symm))
      · exact .inr ⟨latest, body, hget, hstored, hkey, hintact, htarget.trans hbody, hdigest⟩
  refine ⟨⟨redirect latest.id target.id, h.redirected, fun k hk => ?_, fun k hk => ?_⟩, fun hO k x hx => ?_,
    fun hC k x hx => ?_, fun hT => hT.advance cursor none hone hsum, hleft, hrows, rfl, hcursor, rfl⟩
  · unfold redirect
    split_ifs with hid
    · subst hid
      exact .inr ⟨fun hin => hnotin ((hleft _).mp hin).1, hresolves⟩
    · exact .inl ⟨rfl, hrows k hid hk, hcontent k hid⟩
  · have hid : k ≠ latest.id := fun hid => hk (hid ▸ ⟨latest, hget, hsource⟩)
    exact ⟨if_neg hid, fun hin => hk ((hleft k).mp hin).1, hcontent k hid⟩
  · obtain ⟨_, b, hb, rfl⟩ := h.row hx
    exact ⟨(hO k b hb).empty, (hO k b hb).owned⟩
  · obtain ⟨hid, b, hb, rfl⟩ := h.row hx
    show b.refCount + _ = currentBlobRefCount db' k
    rw [h.count hid, hC k b hb, ← hC _ latest hget, hn]

/-! ### `migrate_one_blob`, step by step -/

theorem database_ok {α : Type} {failed : AsterError → α} {run : ℕ → String → Option (Store × α)} {r : α}
    (h : database s failed run a = some (s', r)) :
    (∃ now uuid, run now uuid = some (s', r)) ∨ (s' = s ∧ ∃ e, r = failed e) := by
  cases a with
  | ok now uuid => exact .inl ⟨now, uuid, h⟩
  | fails kind message =>
    cases h
    exact .inr ⟨rfl, _, rfl⟩
  | _ => simp [database] at h

theorem reading_ok {object : Option Body} {failed : AsterError → Next} {run : Body → Next}
    (h : reading s object failed run a = some (s', n)) :
    s' = s ∧ ((∃ body, object = some body ∧ n = run body) ∨ ∃ e, n = failed e) := by
  cases a with
  | ok now uuid =>
    obtain ⟨body, hbody, hr⟩ := map_eq_some_iff.mp h
    cases hr
    exact ⟨rfl, .inl ⟨body, hbody, rfl⟩⟩
  | fails kind message =>
    cases h
    exact ⟨rfl, .inr ⟨_, rfl⟩⟩
  | _ => simp [reading] at h

theorem orFailed_ok {α : Type} {failed : AsterError → α} {run : Except AsterError (Store × α)} {r : α}
    (h : orFailed s failed run = (s', r)) : run = .ok (s', r) ∨ (s' = s ∧ ∃ e, r = failed e) := by
  cases run with
  | ok x => exact .inl (congrArg _ h)
  | error e =>
    cases h
    exact .inr ⟨rfl, e, rfl⟩

/-- Nothing happened and the worker knows where it stands, or the blob is done. -/
def Fine (cfg : Setup) (s s' : Store) (id : ℕ) (n : Next) : Prop :=
  (Quiet cfg s s' ∧ KnowsNext cfg s' id n) ∨ (Handled cfg s s' id ∧ n = .done)

theorem Fine.stay (h : KnowsNext cfg s id n) : Fine cfg s s id n := .inl ⟨.refl s, h⟩

theorem Fine.fail (e : AsterError) : Fine cfg s s id (.failed e) := .stay trivial

theorem CopyReady.cleanup (h : CopyReady cfg s.db.blobs id c) (e : AsterError) :
    KnowsNext cfg s id (.goto (.findReference c (some e))) := ⟨h, rfl⟩

theorem stepFind_ok {blob : FileBlob} (hid : blob.id = id) (hcurrent : Current cfg s.db.blobs blob)
    (h : stepFind cfg s blob a = some (s', n)) : Fine cfg s s' id n := by
  rcases database_ok h with ⟨_, _, h⟩ | ⟨rfl, e, rfl⟩
  · rw [hcurrent.1] at h
    dsimp only at h
    rw [if_neg (not_not_intro hcurrent.2)] at h
    split_ifs at h with hempty
    · cases h
      exact .stay ⟨hid, hcurrent, hempty⟩
    · cases h
      refine .stay ⟨hid, hcurrent, ?_⟩
      cases hb : blob.backing with
      | stored => rfl
      | virtualEmpty => exact absurd hb hempty
  · exact .fail e

theorem startCopy_ok {targetHash : String} {renamed : Bool} (hid : latest.id = id)
    (hcurrent : Current cfg s.db.blobs latest) (hstored : latest.backing = .stored)
    (hfree : findBlobByHash s.db.blobs targetHash cfg.targetPolicyId = none) :
    KnowsNext cfg s id (startCopy cfg latest targetHash renamed) := by
  unfold startCopy
  split
  · trivial
  · next targetPath hpath =>
    split
    · trivial
    · next sourcePath hsource =>
      have hready : CopyReady cfg s.db.blobs id
          { blob := latest, sourcePath, targetHash, targetPath, renamedOpaqueBlob := renamed } :=
        ⟨hid, hcurrent, hstored, hsource, hpath, hfree⟩
      split
      · exact hready
      · split
        · trivial
        · split_ifs
          · exact hready
          · exact hready
          · trivial

theorem verifyExistingTarget_ok (hready : MergeReady cfg s.db.blobs id latest target)
    (hstored : latest.backing = .stored) (hkey : isContentSha256BlobKey latest.hash = true)
    (hstored' : target.backing = .stored) : KnowsNext cfg s id (verifyExistingTarget latest target) := by
  unfold verifyExistingTarget
  split_ifs
  · trivial
  · split
    · trivial
    · next path hpath => exact ⟨hready, hstored, hkey, hstored', hpath, rfl⟩

theorem stepFindTarget_ok (hid : latest.id = id) (hcurrent : Current cfg s.db.blobs latest)
    (hstored : latest.backing = .stored) (h : stepFindTarget cfg s latest a = some (s', n)) : Fine cfg s s' id n := by
  rcases database_ok h with ⟨_, uuid, h⟩ | ⟨rfl, e, rfl⟩
  · split at h
    · next hfree =>
      cases h
      exact .stay (startCopy_ok hid hcurrent hstored hfree)
    · next target hfind =>
      obtain ⟨hget, hp⟩ := mem_of_find hfind
      obtain ⟨_, hpolicy, hbacking⟩ := of_decide_eq_true hp
      split_ifs at h with hkey htaken
      · cases h
        exact .stay (verifyExistingTarget_ok ⟨hid, hcurrent, hget, hpolicy⟩ hstored hkey hbacking)
      · cases h
        rw [Bool.not_eq_true, isSome_eq_false_iff, isNone_iff_eq_none] at htaken
        exact .stay (startCopy_ok hid hcurrent hstored htaken)
  · exact .fail e

theorem stepFindVirtual_ok {absent : Next} (hid : latest.id = id) (hcurrent : Current cfg s.db.blobs latest)
    (hempty : latest.backing = .virtualEmpty) (habsent : KnowsNext cfg s id absent)
    (h : stepFindVirtual cfg s latest absent a = some (s', n)) : Fine cfg s s' id n := by
  rcases database_ok h with ⟨_, _, h⟩ | ⟨rfl, e, rfl⟩
  · split at h
    · next target hfind =>
      cases h
      obtain ⟨hget, hp⟩ := mem_of_find hfind
      obtain ⟨_, hpolicy, hbacking⟩ := of_decide_eq_true hp
      exact .stay ⟨⟨hid, hcurrent, hget, hpolicy⟩, .inl ⟨hempty, hbacking⟩⟩
    · cases h
      exact .stay habsent
  · exact .fail e

theorem content_of_stored (hget : s.db.blobs.get k = some b) (hstored : b.backing = .stored) :
    content s k = b.storagePath.bind (s.objects b.policyId) := by
  unfold content
  rw [hget, bind_some, hstored]

theorem content_of_source (hcurrent : Current cfg s.db.blobs b) (hstored : b.backing = .stored) {path : String}
    (hpath : b.storagePath = some path) : content s b.id = s.objects cfg.sourcePolicyId path := by
  rw [content_of_stored hcurrent.1 hstored, hpath, bind_some, hcurrent.2]

theorem handled_of_moveVirtual {moved : Bool} {blobs : Blobs} (hlaw : cfg.Law)
    (hO : Owned cfg s.db.blobs) (hcurrent : Current cfg s.db.blobs latest) (hempty : latest.backing = .virtualEmpty)
    (hcursor : cfg.mode = .normal → cursor = latest.id)
    (h : moveVirtualEmptyBlobPolicyIfCurrent s.db.blobs latest.id cfg.sourcePolicyId cfg.targetPolicyId =
      .ok (moved, blobs)) :
    Handled cfg s ({ s with db := { s.db with blobs } }.advance latest.id cursor
      (if moved then migratedOne else skippedOne) none) latest.id := by
  obtain ⟨rfl, hrel⟩ := moveVirtualEmptyBlobPolicyIfCurrent_ok h hcurrent.1 hcurrent.2 hempty
  have hpath := (hO _ _ hcurrent.1).empty hempty
  refine handled_of_relocated hlaw hcurrent.1 hcurrent.2 hrel rfl rfl ⟨fun _ => hpath, ?_⟩ ?_ rfl rfl hcursor
  · intro _ key path _ hp
    rw [show latest.storagePath = some path from hp] at hpath
    simp at hpath
  · show (blobs.get latest.id).bind _ = (s.db.blobs.get latest.id).bind _
    rw [hrel latest.id, if_pos rfl, hcurrent.1, bind_some, bind_some, hempty]

theorem stepMoveVirtual_ok (hlaw : cfg.Law) (hO : Owned cfg s.db.blobs) (hid : latest.id = id)
    (hcurrent : Current cfg s.db.blobs latest) (hempty : latest.backing = .virtualEmpty)
    (h : stepMoveVirtual cfg s latest a = some (s', n)) : Fine cfg s s' id n := by
  subst hid
  have hagain : ∀ e, Fine cfg s s latest.id (.goto (.findVirtualAgain latest e)) :=
    fun e => .stay ⟨rfl, hcurrent, hempty⟩
  rcases database_ok h with ⟨_, _, h⟩ | ⟨rfl, e, rfl⟩
  · rcases orFailed_ok (some.inj h) with h | ⟨rfl, e, rfl⟩
    · obtain ⟨s1, hmove, hr⟩ := map_ok_iff.mp h
      cases hr
      obtain ⟨⟨moved, blobs⟩, hblobs, hmove⟩ := bind_ok hmove
      cases hmove
      exact .inr ⟨handled_of_moveVirtual hlaw hO hcurrent hempty (fun _ => rfl) hblobs, rfl⟩
    · exact hagain e
  · exact hagain e

theorem handled_of_transfer (hlaw : cfg.Law)
    (hready : MergeReady cfg s.db.blobs id latest target) (hsame : SameContent cfg s latest target)
    (h : transferReferences s.db latest target now = .ok db') (hone : outcome.scanned = 1)
    (hsum : outcome.scanned = outcome.migrated + outcome.merged + outcome.skipped + outcome.failed)
    (hcursor : cfg.mode = .normal → cursor = id) :
    Handled cfg s ({ s with db := db' }.advance id cursor outcome none) id := by
  have hne : latest.id ≠ target.id := by
    intro heq
    have hsource := hready.current.2
    obtain rfl : latest = target := some.inj (hready.current.1.symm.trans ((congrArg _ heq).trans hready.found))
    exact hlaw.distinct (hsource.symm.trans hready.policy)
  obtain ⟨m, hm, ht⟩ := transferReferences_ok hne h
  exact handled_of_transferred hlaw hready hsame hm ht hone hsum hcursor

theorem findBlobById_ok {x : FileBlob} (h : findBlobById t k = .ok x) : t.get k = some x := by
  unfold findBlobById at h
  split at h
  · next y hy => rw [hy, Except.ok.inj h]
  · simp at h

theorem stepMerge_ok (hlaw : cfg.Law) (hready : MergeReady cfg s.db.blobs id latest target)
    (hsame : SameContent cfg s latest target) (h : stepMerge s latest target a = some (s', n)) :
    Fine cfg s s' id n := by
  rcases database_ok h with ⟨now, _, h⟩ | ⟨rfl, e, rfl⟩
  · rcases orFailed_ok (some.inj h) with h | ⟨rfl, e, rfl⟩
    · obtain ⟨s1, hmerge, hr⟩ := map_ok_iff.mp h
      cases hr
      refine .inr ⟨?_, rfl⟩
      obtain ⟨old, hold, hmerge⟩ := bind_ok hmerge
      obtain rfl : latest = old := some.inj (hready.current.1.symm.trans (findBlobById_ok hold))
      rw [if_neg (not_not_intro rfl)] at hmerge
      obtain ⟨found, hfound, hmerge⟩ := bind_ok hmerge
      obtain rfl : target = found := some.inj (hready.found.symm.trans (findBlobById_ok hfound))
      split_ifs at hmerge
      obtain ⟨db', htransfer, hmerge⟩ := bind_ok hmerge
      cases hmerge
      have hid := hready.id
      subst hid
      exact handled_of_transfer hlaw hready hsame htransfer rfl rfl fun _ => rfl
    · exact .fail e
  · exact .fail e

variable {body : Body}

theorem stepMove_ok (hlaw : cfg.Law) (hready : CopyReady cfg s.db.blobs id c)
    (hsource : cfg.source s c = some body) (htarget : cfg.target s c.targetPath = some body)
    (h : stepMove cfg s c a = some (s', n)) : Fine cfg s s' id n := by
  rcases database_ok h with ⟨_, _, h⟩ | ⟨rfl, e, rfl⟩
  · rcases orFailed_ok (some.inj h) with h | ⟨rfl, e, rfl⟩
    · obtain ⟨⟨moved, s1⟩, hmove, hr⟩ := map_ok_iff.mp h
      obtain ⟨⟨moved', blobs⟩, hblobs, hmove⟩ := bind_ok hmove
      obtain ⟨rfl, hrel⟩ := moveBlobPolicyIfCurrent_ok hblobs hready.current.1 hready.current.2
      cases hmove
      cases hr
      have hid := hready.id
      subst hid
      refine .inr ⟨?_, rfl⟩
      refine handled_of_relocated hlaw hready.current.1 hready.current.2 hrel rfl rfl ⟨?_, ?_⟩ ?_ rfl rfl fun _ => rfl
      · intro hempty
        have hvirtual : c.blob.backing = .virtualEmpty := hempty
        exact absurd (hready.stored.symm.trans hvirtual) (by simp)
      · intro _ key path hkey hpath
        obtain rfl : c.targetPath = path := some.inj hpath
        exact ⟨hlaw.paths _ _ _ hready.targetPath hkey, hready.stored⟩
      · -- the object at the new path is the one at the old path
        rw [content_of_source hready.current hready.stored hready.sourcePath]
        have hget := (hrel c.blob.id).trans (if_pos rfl)
        refine (content_of_stored hget ?_).trans ?_
        · exact hready.stored
        · exact htarget.trans hsource.symm
    · exact .fail e
  · exact .fail e

/-! ### Copies -/

theorem afterUpload_ok (hready : CopyReady cfg s.db.blobs id c) (hsource : cfg.source s c = some body) :
    KnowsNext cfg s id (afterUpload cfg c body) := by
  unfold afterUpload
  split_ifs
  · exact hready.cleanup _
  · exact ⟨hready, rfl, body, hsource, rfl⟩

theorem stepPut_ok (hlaw : cfg.Law) (hO : Owned cfg s.db.blobs) (hready : CopyReady cfg s.db.blobs id c)
    (hsource : cfg.source s c = some body) (h : stepPut cfg s c body a = some (s', n)) : Fine cfg s s' id n := by
  cases a with
  | writes object error =>
    have hquiet := hready.write hlaw hO object
    rcases error with _ | ⟨kind, message⟩
    · cases h
      exact .inl ⟨hquiet, afterUpload_ok hready ((hquiet.source _).trans hsource)⟩
    · cases h
      exact .inl ⟨hquiet, hready, rfl⟩
  | _ => simp [stepPut] at h

variable {u : Upload}

section

variable (hready : CopyReady cfg s.db.blobs id u.copy)
  (hread : ∀ body, cfg.source s u.copy = some body → u.read = body.take u.offset)
include hready hread

theorem nextPart_ok : KnowsNext cfg s id (nextPart u) := by
  unfold nextPart
  split_ifs
  · exact ⟨hready, hread⟩
  · exact ⟨hready, hread⟩

theorem stepUploadPart_ok {attempt : ℕ} (h : stepUploadPart cfg s u attempt a = some (s', n)) : Fine cfg s s' id n := by
  have hreading (h : reading s (cfg.source s u.copy) (fun e => .goto (.abortUpload u.copy e))
      (fun body => nextPart (u.push body)) a = some (s', n)) : Fine cfg s s' id n := by
    obtain ⟨rfl, ⟨body, hbody, rfl⟩ | ⟨e, rfl⟩⟩ := reading_ok h
    · refine .stay (nextPart_ok hready fun body' hbody' => ?_)
      obtain rfl : body = body' := some.inj (hbody.symm.trans hbody')
      show u.read ++ (body.drop u.offset).take u.currentPartSize = body.take (u.offset + u.currentPartSize)
      rw [hread body hbody, take_add]
    · exact .stay hready
  cases a with
  | writes object error =>
    rcases error with _ | ⟨kind, message⟩
    · exact hreading h
    · simp only [stepUploadPart] at h
      split_ifs at h
      · cases h
        exact .stay ⟨hready, hread⟩
      · cases h
        exact .stay hready
  | _ => exact hreading h

theorem stepFinishRange_ok (h : stepFinishRange cfg s u a = some (s', n)) : Fine cfg s s' id n := by
  obtain ⟨rfl, ⟨body, hbody, rfl⟩ | ⟨e, rfl⟩⟩ := reading_ok h
  · split_ifs with hend
    · -- nothing is left behind the parts
      refine .stay ⟨hready, ?_⟩
      rw [hread body hbody, hbody]
      refine congrArg some (take_of_length_le ?_).symm
      exact drop_eq_nil_iff.mp (List.isEmpty_iff.mp hend)
    · exact .stay hready
  · exact .stay hready

end

theorem stepCompleteUpload_ok (hlaw : cfg.Law) (hO : Owned cfg s.db.blobs)
    (hready : CopyReady cfg s.db.blobs id u.copy) (hsource : cfg.source s u.copy = some u.read)
    (h : stepCompleteUpload cfg s u a = some (s', n)) : Fine cfg s s' id n := by
  cases a with
  | writes object error =>
    have hquiet := hready.write hlaw hO object
    have hsource' := (hquiet.source u.copy.sourcePath).trans hsource
    rcases error with _ | ⟨kind, message⟩
    · cases h
      exact .inl ⟨hquiet, afterUpload_ok hready hsource'⟩
    · cases h
      refine .inl ⟨hquiet, ?_⟩
      split_ifs
      · exact ⟨hready, hsource'⟩
      · exact hready
  | _ => simp [stepCompleteUpload] at h

theorem stepProbeCompleted_ok {error : AsterError} (hready : CopyReady cfg s.db.blobs id u.copy)
    (hsource : cfg.source s u.copy = some u.read) (h : stepProbeCompleted cfg s u error a = some (s', n)) :
    Fine cfg s s' id n := by
  obtain ⟨rfl, ⟨body, _, rfl⟩ | ⟨e, rfl⟩⟩ := reading_ok h
  · split_ifs
    · exact .stay (afterUpload_ok hready hsource)
    · exact .stay hready
  · exact .stay hready

variable {v : Check}

theorem Goal.failed_ok (hv : KnowsCheck cfg s id v) (e : AsterError) : KnowsNext cfg s id (v.goal.failed e) := by
  obtain ⟨path, hash, size, goal⟩ := v
  cases goal with
  | merge latest target => trivial
  | move c => exact hv.1.cleanup e

theorem Goal.reached_ok (hlaw : cfg.Law) (hv : KnowsCheck cfg s id v)
    (hbody : cfg.target s v.path = some body) (hdigest : cfg.sha256 body = v.hash) :
    KnowsNext cfg s id v.goal.reached := by
  obtain ⟨path, hash, size, goal⟩ := v
  cases goal with
  | merge latest target =>
    obtain ⟨hready, hstored, hkey, hstored', hpath, hhash⟩ := hv
    refine ⟨hready, .inr ⟨hstored, hkey, body, ?_, hdigest.trans hhash⟩⟩
    rw [content_of_stored hready.found hstored', hpath, bind_some, hready.policy]
    exact hbody
  | move c =>
    obtain ⟨hready, hpath, body', hbody', hhash⟩ := hv
    obtain rfl := hlaw.sha256 (hdigest.trans hhash)
    exact ⟨hready, body, hbody', hpath ▸ hbody⟩

theorem stepMetadata_ok (hv : KnowsCheck cfg s id v) (h : stepMetadata cfg s v a = some (s', n)) :
    Fine cfg s s' id n := by
  obtain ⟨rfl, ⟨body, _, rfl⟩ | ⟨e, rfl⟩⟩ := reading_ok h
  · split_ifs
    · exact .stay (Goal.failed_ok hv _)
    · exact .stay hv
  · exact .stay (Goal.failed_ok hv _)

theorem stepReread_ok (hlaw : cfg.Law) (hv : KnowsCheck cfg s id v)
    (h : stepReread cfg s v a = some (s', n)) : Fine cfg s s' id n := by
  obtain ⟨rfl, ⟨body, hbody, rfl⟩ | ⟨e, rfl⟩⟩ := reading_ok h
  · split_ifs with hdigest
    · exact .stay (Goal.failed_ok hv _)
    · exact .stay (Goal.reached_ok hlaw hv hbody (not_not.mp hdigest))
  · exact .stay (Goal.failed_ok hv _)

/-! ### Cleanups -/

variable {error : Option AsterError}

theorem afterCleanup_ok (h : error.isSome) : KnowsNext cfg s id (afterCleanup error) := by
  cases error with
  | none => simp at h
  | some e => trivial

theorem stepFindReference_ok (hready : CopyReady cfg s.db.blobs id c)
    (hsome : error.isSome) (h : stepFindReference cfg s c error a = some (s', n)) : Fine cfg s s' id n := by
  cases a with
  | ok now uuid =>
    cases h
    split_ifs
    · exact .stay (afterCleanup_ok hsome)
    · exact .stay ⟨hready, hsome⟩
  | fails kind message =>
    cases h
    exact .stay (afterCleanup_ok hsome)
  | inactive =>
    simp only [stepFindReference, hsome, if_true] at h
    cases h
    exact .stay (afterCleanup_ok hsome)
  | _ => simp [stepFindReference] at h

theorem stepDeleteTarget_ok (hlaw : cfg.Law) (hO : Owned cfg s.db.blobs)
    (hready : CopyReady cfg s.db.blobs id c) (hsome : error.isSome)
    (h : stepDeleteTarget cfg s c error a = some (s', n)) : Fine cfg s s' id n := by
  have hgone : Fine cfg s (cfg.setTarget s c.targetPath none) id (afterCleanup error) :=
    .inl ⟨hready.write hlaw hO none, afterCleanup_ok hsome⟩
  cases a with
  | ok now uuid =>
    cases h
    exact hgone
  | fails kind message =>
    cases h
    exact .stay (afterCleanup_ok hsome)
  | writes object e =>
    cases object with
    | none =>
      cases h
      exact hgone
    | some body => simp [stepDeleteTarget] at h
  | inactive =>
    simp only [stepDeleteTarget, hsome, if_true] at h
    cases h
    exact .stay (afterCleanup_ok hsome)
  | _ => simp [stepDeleteTarget] at h

/-- **One step of `migrate_one_blob`.** -/
theorem stepBlob_ok {pc : Pc} (hlaw : cfg.Law) (hO : Owned cfg s.db.blobs) (hpc : KnowsPc cfg s id pc)
    (h : stepBlob cfg s a pc = some (s', n)) : Fine cfg s s' id n := by
  cases pc with
  | find blob => exact stepFind_ok hpc.1 hpc.2 h
  | skip blobId => exact hpc.elim
  | findVirtual latest =>
    have habsent : KnowsNext cfg s id (.goto (.moveVirtual latest)) := hpc
    exact stepFindVirtual_ok hpc.1 hpc.2.1 hpc.2.2 habsent h
  | moveVirtual latest => exact stepMoveVirtual_ok hlaw hO hpc.1 hpc.2.1 hpc.2.2 h
  | findVirtualAgain latest e =>
    have habsent : KnowsNext cfg s id (.failed e) := trivial
    exact stepFindVirtual_ok hpc.1 hpc.2.1 hpc.2.2 habsent h
  | findTarget latest => exact stepFindTarget_ok hpc.1 hpc.2.1 hpc.2.2 h
  | merge latest target => exact stepMerge_ok hlaw hpc.1 hpc.2 h
  | openSource c =>
    obtain ⟨rfl, ⟨body, hbody, rfl⟩ | ⟨e, rfl⟩⟩ := reading_ok h
    · exact .stay ⟨hpc, hbody⟩
    · exact .fail e
  | put c body => exact stepPut_ok hlaw hO hpc.1 hpc.2 h
  | createUpload c partSize =>
    cases a with
    | ok now uuid =>
      cases h
      exact .stay (nextPart_ok hpc fun body _ => rfl)
    | fails kind message =>
      cases h
      exact .fail _
    | _ => simp [stepBlob] at h
  | uploadPart u attempt => exact stepUploadPart_ok hpc.1 hpc.2 h
  | finishRange u => exact stepFinishRange_ok hpc.1 hpc.2 h
  | completeUpload u => exact stepCompleteUpload_ok hlaw hO hpc.1 hpc.2 h
  | probeCompleted u e => exact stepProbeCompleted_ok hpc.1 hpc.2 h
  | abortUpload c e =>
    cases a with
    | ok now uuid | fails kind message =>
      cases h
      exact .stay (hpc.cleanup e)
    | _ => simp [stepBlob] at h
  | metadata v => exact stepMetadata_ok hpc h
  | reread v => exact stepReread_ok hlaw hpc h
  | move c =>
    obtain ⟨hready, body, hsource, htarget⟩ := hpc
    exact stepMove_ok hlaw hready hsource htarget h
  | findReference c e => exact stepFindReference_ok hpc.1 hpc.2 h
  | deleteTarget c e => exact stepDeleteTarget_ok hlaw hO hpc.1 hpc.2 h

/-! ### Batches -/

theorem page_ascending (t : Blobs) (p : FileBlob → Bool) :
    (sortByKey (fun b => (b.id : ℤ)) (t.rows.filter p)).Pairwise fun a b => a.id < b.id := by
  have hperm := sortByKey_perm (fun b : FileBlob => (b.id : ℤ)) (t.rows.filter p)
  have hnodup : ((sortByKey (fun b => (b.id : ℤ)) (t.rows.filter p)).map FileBlob.id).Nodup :=
    (hperm.map _).nodup_iff.mpr (t.unique.sublist (List.filter_sublist.map _))
  unfold List.Nodup at hnodup
  rw [pairwise_map] at hnodup
  refine (sortByKey_pairwise _ _).imp₂ (fun a b hle hne => ?_) hnodup
  omega

theorem mem_blobPage {afterId : ℕ} (h : b ∈ blobPage cfg t afterId) : Current cfg t b ∧ afterId < b.id := by
  have hmem := (sortByKey_perm _ _).subset (mem_of_mem_take h)
  obtain ⟨hrow, hp⟩ := mem_filter.mp hmem
  obtain ⟨hpolicy, hafter, _⟩ := of_decide_eq_true hp
  exact ⟨⟨get_of_mem hrow, hpolicy⟩, hafter⟩

theorem blobPage_queue (t : Blobs) (afterId : ℕ) : Queue cfg t (blobPage cfg t afterId) :=
  ⟨(page_ascending t _).sublist (take_sublist ..), fun _ hb => (mem_blobPage hb).1⟩

theorem blobPage_first {afterId : ℕ} (hmode : cfg.mode = .normal) (hb : t.get k = some b)
    (hpolicy : b.policyId = cfg.sourcePolicyId) (hafter : afterId < k) :
    b ∈ blobPage cfg t afterId ∨ (blobPage cfg t afterId ≠ [] ∧ ∀ x ∈ blobPage cfg t afterId, x.id < k) := by
  have hid : b.id = k := key_of_get hb
  unfold blobPage
  generalize hl : sortByKey _ _ = l
  have hmem : b ∈ l := by
    rw [← hl]
    refine (sortByKey_perm _ _).symm.subset (mem_filter.mpr ⟨mem_of_get hb, decide_eq_true ?_⟩)
    exact ⟨hpolicy, hid ▸ hafter, .inl hmode⟩
  have hasc : l.Pairwise fun a b => a.id < b.id := hl ▸ page_ascending t _
  have hsplit := take_append_drop migrationBatchSize l
  rw [← hsplit] at hmem hasc
  rcases mem_append.mp hmem with htake | hdrop
  · exact .inl htake
  · refine .inr ⟨?_, fun x hx => hid ▸ (pairwise_append.mp hasc).2.2 x hx b hdrop⟩
    intro hnil
    rcases take_eq_nil_iff.mp hnil with hzero | hempty
    · exact absurd hzero (by decide)
    · rw [hempty] at hdrop
      simp at hdrop

/-! ### A whole attempt -/

/-- What holds of the store at any point of any attempt. -/
structure Sound (cfg : Setup) (s₀ s : Store) : Prop where
  owned : Owned cfg s.db.blobs
  counts : Counted s.db
  tally : Tally s
  follow : AllFollow cfg s₀ s

theorem Sound.plain (h : Sound cfg s₀ s) (hdb : s'.db = s.db) (hcontent : ∀ k, content s' k = content s k)
    (htally : Tally s') : Sound cfg s₀ s' :=
  ⟨hdb ▸ h.owned, hdb ▸ h.counts, htally, h.follow.step (.of_same hdb hcontent)⟩

theorem Sound.quiet (h : Sound cfg s₀ s) (hq : Quiet cfg s s') : Sound cfg s₀ s' := by
  refine h.plain hq.db hq.content ⟨?_, ?_⟩
  · rw [hq.checkpoint]
    exact h.tally.scanned
  · rw [hq.checkpoint, hq.counted]
    exact h.tally.log

theorem Sound.handled (h : Sound cfg s₀ s) (hd : Handled cfg s s' id) : Sound cfg s₀ s' := by
  obtain ⟨r, hr⟩ := hd.carries
  exact ⟨hd.owned h.owned, hd.counts h.counts, hd.tally h.tally, h.follow.step hr⟩

variable {rest : List FileBlob}

theorem Queue.handled (h : Queue cfg s.db.blobs rest) (hd : Handled cfg s s' id)
    (hbehind : ∀ b ∈ rest, id < b.id) : Queue cfg s'.db.blobs rest := by
  refine ⟨h.ascending, fun b hb => ?_⟩
  obtain ⟨hget, hpolicy⟩ := h.current b hb
  have hne : b.id ≠ id := Nat.ne_of_gt (hbehind b hb)
  exact ⟨(hd.rows b.id hne ⟨b, hget, hpolicy⟩).trans hget, hpolicy⟩

theorem Queue.next (h : Queue cfg s.db.blobs (b :: rest)) : Knows cfg s (.blob b.id (.find b) rest) := by
  obtain ⟨hfirst, hrest⟩ := pairwise_cons.mp h.ascending
  exact ⟨⟨rfl, h.current b mem_cons_self⟩, ⟨hrest, fun x hx => h.current x (mem_cons_of_mem _ hx)⟩, hfirst⟩

theorem knows_afterRecovery (hasStored : Bool) (cursor : ℕ) : Knows cfg s (afterRecovery hasStored cursor) := by
  unfold afterRecovery
  split_ifs <;> trivial

theorem knows_afterBlob (hn : KnowsNext cfg s id n) (hq : Queue cfg s.db.blobs rest)
    (hbehind : ∀ b ∈ rest, id < b.id) : Knows cfg s (afterBlob cfg id rest n) := by
  cases n with
  | goto pc => exact ⟨hn, hq, hbehind⟩
  | done => exact hn.elim
  | failed e =>
    show Knows cfg s (afterFailure cfg id rest e)
    unfold afterFailure
    split_ifs with hmode
    · exact ⟨hmode.1, hq⟩
    · trivial

theorem recoverVirtualEmpty_ok {found : Option FileBlob} (hlaw : cfg.Law)
    (hO : Owned cfg s.db.blobs) (hmode : cfg.mode = .recoverAvailable) (hcurrent : Current cfg s.db.blobs b)
    (hempty : b.backing = .virtualEmpty)
    (hfound : ∀ t ∈ found, s.db.blobs.get t.id = some t ∧ t.policyId = cfg.targetPolicyId)
    (h : recoverVirtualEmpty cfg s cursor b now found = .ok s') : Handled cfg s s' b.id := by
  have hcursor : cfg.mode = .normal → cursor = b.id := fun hnormal => nomatch hmode.symm.trans hnormal
  cases found with
  | none =>
    obtain ⟨⟨moved, blobs⟩, hblobs, h⟩ := bind_ok h
    cases h
    exact handled_of_moveVirtual hlaw hO hcurrent hempty hcursor hblobs
  | some target =>
    obtain ⟨hget, hpolicy⟩ := hfound target rfl
    obtain ⟨source, hsource, h⟩ := bind_ok h
    obtain rfl : b = source := some.inj (hcurrent.1.symm.trans (findBlobById_ok hsource))
    rw [if_neg (not_not_intro hcurrent.2)] at h
    obtain ⟨target', htarget, h⟩ := bind_ok h
    obtain rfl : target = target' := some.inj (hget.symm.trans (findBlobById_ok htarget))
    split_ifs at h with hbacking
    obtain ⟨db', htransfer, h⟩ := bind_ok h
    cases h
    exact handled_of_transfer hlaw ⟨rfl, hcurrent, hget, hpolicy⟩ (.inl ⟨hempty, not_not.mp hbacking⟩) htransfer rfl
      rfl hcursor

theorem statement_ok {w' : Worker} {run : ℕ → Store × Worker} (h : statement s a run = some (s', w')) :
    (∃ now, run now = (s', w')) ∨ (s' = s ∧ w' = .idle) := by
  rcases database_ok h with ⟨now, _, h⟩ | ⟨rfl, _, rfl⟩
  · exact .inl ⟨now, some.inj h⟩
  · exact .inr ⟨rfl, rfl⟩

theorem statement_keeps (P : Store × Worker → Prop) {w' : Worker} {run : ℕ → Store × Worker}
    (h : statement s a run = some (s', w')) (hidle : P (s, .idle)) (hrun : ∀ now, P (run now)) : P (s', w') := by
  obtain ⟨now, h⟩ | ⟨rfl, rfl⟩ := statement_ok h
  · exact h ▸ hrun now
  · exact hidle

/-- **One step of an attempt.** -/
theorem stepWorker_ok {w w' : Worker} (hlaw : cfg.Law) (hS : Sound cfg s₀ s) (hK : Knows cfg s w)
    (h : stepWorker cfg s a w = some (s', w')) : Sound cfg s₀ s' ∧ Knows cfg s' w' := by
  have hstage : ∀ stage, Sound cfg s₀ (s.setStage stage) :=
    fun stage => hS.plain rfl (fun _ => rfl) ⟨hS.tally.scanned, hS.tally.log⟩
  have keeps : ∀ {run}, statement s a run = some (s', w') →
      (∀ now, Sound cfg s₀ (run now).1 ∧ Knows cfg (run now).1 (run now).2) → Sound cfg s₀ s' ∧ Knows cfg s' w' :=
    fun h hrun => statement_keeps (fun x => Sound cfg s₀ x.1 ∧ Knows cfg x.1 x.2) h ⟨hS, trivial⟩ hrun
  cases w with
  | idle =>
    cases a with
    | claim =>
      simp only [stepWorker] at h
      split_ifs at h
      cases h
      exact ⟨hS, trivial⟩
    | _ => simp [stepWorker] at h
  | prepare | countRemaining =>
    exact keeps h fun _ => ⟨hS, trivial⟩
  | setStage hasStored | complete =>
    exact keeps h fun _ => ⟨hstage _, trivial⟩
  | loadCheckpoint hasStored =>
    refine keeps h fun _ => ?_
    refine ⟨hS, ?_⟩
    cases hmode : cfg.mode with
    | normal => trivial
    | recoverAvailable => exact hmode
  | setRecoveryStage hasStored cursor =>
    exact keeps h fun _ => ⟨hstage _, hK⟩
  | findRecoverySource hasStored cursor =>
    refine keeps h fun _ => ?_
    refine ⟨hS, ?_⟩
    split
    · exact knows_afterRecovery _ _
    · next b hfind =>
      obtain ⟨hget, hp⟩ := mem_of_find hfind
      obtain ⟨_, hpolicy, hempty⟩ := of_decide_eq_true hp
      exact ⟨hK, ⟨hget, hpolicy⟩, hempty⟩
  | findRecoveryTarget hasStored cursor b =>
    refine keeps h fun _ => ?_
    refine ⟨hS, hK.1, hK.2.1, hK.2.2, fun t ht => ?_⟩
    obtain ⟨hget, hp⟩ := mem_of_find ht
    exact ⟨hget, (of_decide_eq_true hp).2.1⟩
  | recoverVirtual hasStored cursor b found =>
    obtain ⟨hmode, hcurrent, hempty, hfound⟩ := hK
    obtain ⟨now, h⟩ | ⟨rfl, rfl⟩ := statement_ok h
    · rcases orFailed_ok h with h | ⟨rfl, _, rfl⟩
      · obtain ⟨s₁, hrun, hr⟩ := map_ok_iff.mp h
        cases hr
        exact ⟨hS.handled (recoverVirtualEmpty_ok hlaw hS.owned hmode hcurrent hempty hfound hrun),
          knows_afterRecovery _ _⟩
      · exact ⟨hS, trivial⟩
    · exact ⟨hS, trivial⟩
  | page cursor =>
    refine keeps h fun _ => ?_
    refine ⟨hS, ?_⟩
    have hqueue : Queue cfg s.db.blobs (blobPage cfg s.db.blobs cursor) := blobPage_queue _ _
    rcases hpage : blobPage cfg s.db.blobs cursor with _ | ⟨b, rest⟩
    · trivial
    · rw [hpage] at hqueue
      exact hqueue.next
  | blob id pc rest =>
    obtain ⟨hpc, hqueue, hbehind⟩ := hK
    obtain ⟨⟨s₁, n⟩, hstep, hr⟩ := map_eq_some_iff.mp h
    cases hr
    rcases stepBlob_ok hlaw hS.owned hpc hstep with ⟨hq, hn⟩ | ⟨hd, rfl⟩
    · exact ⟨hS.quiet hq, knows_afterBlob hn (by rw [hq.db]; exact hqueue) hbehind⟩
    · exact ⟨hS.handled hd, hqueue.handled hd hbehind⟩
  | recordFailure id e rest =>
    exact keeps h fun _ => ⟨hS.plain rfl (fun _ => rfl) (hS.tally.advance id _ rfl rfl), hK.2⟩
  | reload rest =>
    refine keeps h fun _ => ?_
    refine ⟨hS, ?_⟩
    cases rest with
    | nil => trivial
    | cons b rest => exact Queue.next hK
  | markSucceeded remaining =>
    exact keeps h fun _ => ⟨hS.plain rfl (fun _ => rfl) ⟨hS.tally.scanned, hS.tally.log⟩, trivial⟩

end

/-! ### Nothing is left out -/

/-- The blobs of the source policy are those that were counted and those behind the cursor. -/
structure Covered (s₀ s : Store) : Prop where
  ahead : ∀ k, InSource cfg s k → s.checkpoint.lastProcessedBlobId < k
  behind : ∀ k ∈ s.counted, k ≤ s.checkpoint.lastProcessedBlobId
  once : s.counted.Nodup
  all : ∀ k, InSource cfg s₀ k ↔ k ∈ s.counted ∨ InSource cfg s k
  emptied : s.succeeded = true → ∀ k, ¬ InSource cfg s k

/-- What is left is one of these blobs, or comes after all of them. -/
def Beyond (s : Store) (ids : List ℕ) : Prop := ∀ k, InSource cfg s k → k ∈ ids ∨ ∀ j ∈ ids, j < k

/-- How far a normal migration has come. -/
def Reached (s : Store) : Worker → Prop
  | .page cursor => cursor = s.checkpoint.lastProcessedBlobId
  | .blob id _ rest => InSource cfg s id ∧ Beyond cfg s (id :: rest.map FileBlob.id)
  | .reload rest => Beyond cfg s (rest.map FileBlob.id)
  | .complete | .countRemaining | .markSucceeded _ => ∀ k, ¬ InSource cfg s k
  | _ => True

section

variable {cfg} {s s' s₀ : Store} {id : ℕ} {a : Act} {n : Next}

theorem Covered.plain (h : Covered cfg s₀ s) (hdb : s'.db = s.db) (hcounted : s'.counted = s.counted)
    (hcursor : s'.checkpoint.lastProcessedBlobId = s.checkpoint.lastProcessedBlobId)
    (hsucceeded : s'.succeeded = true → ∀ k, ¬ InSource cfg s k) : Covered cfg s₀ s' := by
  have hin : ∀ k, InSource cfg s' k ↔ InSource cfg s k := InSource.congr hdb
  refine ⟨fun k hk => ?_, fun k hk => ?_, hcounted ▸ h.once, fun k => ?_, fun hs k => ?_⟩
  · rw [hcursor]
    exact h.ahead k ((hin k).mp hk)
  · rw [hcursor]
    exact h.behind k (hcounted ▸ hk)
  · rw [hcounted, hin k]
    exact h.all k
  · rw [hin k]
    exact hsucceeded hs k

theorem Covered.handled (h : Covered cfg s₀ s) (hmode : cfg.mode = .normal) (hd : Handled cfg s s' id)
    (hin : InSource cfg s id) (hfirst : ∀ k, InSource cfg s k → id ≤ k) : Covered cfg s₀ s' := by
  have hcursor := hd.cursor hmode
  refine ⟨fun k hk => ?_, fun k hk => ?_, ?_, fun k => ?_, fun hs k hk => ?_⟩
  · rw [hcursor]
    obtain ⟨hk, hne⟩ := (hd.left k).mp hk
    have hle := hfirst k hk
    omega
  · rw [hcursor]
    rw [hd.log, mem_append, mem_singleton] at hk
    have hahead := h.ahead id hin
    rcases hk with hk | rfl
    · have hbehind := h.behind k hk
      omega
    · omega
  · rw [hd.log, nodup_append]
    refine ⟨h.once, nodup_singleton _, fun x hx y hy => ?_⟩
    rw [mem_singleton.mp hy]
    have hbehind := h.behind x hx
    have hahead := h.ahead id hin
    omega
  · rw [h.all k, hd.log, mem_append, mem_singleton, hd.left k]
    constructor
    · rintro (hk | hk)
      · exact .inl (.inl hk)
      · by_cases hid : k = id
        · exact .inl (.inr hid)
        · exact .inr ⟨hk, hid⟩
    · rintro ((hk | rfl) | ⟨hk, _⟩)
      · exact .inl hk
      · exact .inr hin
      · exact .inr hk
  · exact h.emptied (hd.succeeded ▸ hs) k ((hd.left k).mp hk).1

theorem Beyond.handled {ids : List ℕ} (h : Beyond cfg s (id :: ids)) (hd : Handled cfg s s' id) :
    Beyond cfg s' ids := by
  intro k hk
  obtain ⟨hk, hne⟩ := (hd.left k).mp hk
  rcases h k hk with hmem | hlt
  · exact .inl ((mem_cons.mp hmem).resolve_left hne)
  · exact .inr fun j hj => hlt j (mem_cons_of_mem _ hj)

theorem Beyond.first {rest : List FileBlob} (h : Beyond cfg s (id :: rest.map FileBlob.id))
    (hbehind : ∀ b ∈ rest, id < b.id) (k : ℕ) (hk : InSource cfg s k) : id ≤ k := by
  rcases h k hk with hmem | hlt
  · rcases mem_cons.mp hmem with rfl | hmem
    · exact le_refl _
    · obtain ⟨b, hb, rfl⟩ := List.mem_map.mp hmem
      exact le_of_lt (hbehind b hb)
  · exact le_of_lt (hlt id mem_cons_self)

theorem Covered.page (h : Covered cfg s₀ s) (hmode : cfg.mode = .normal) :
    Beyond cfg s ((blobPage cfg s.db.blobs s.checkpoint.lastProcessedBlobId).map FileBlob.id) ∧
      (blobPage cfg s.db.blobs s.checkpoint.lastProcessedBlobId = [] → ∀ k, ¬ InSource cfg s k) := by
  refine ⟨fun k hk => ?_, fun hnil k hk => ?_⟩
  · have hahead := h.ahead k hk
    obtain ⟨b, hb, hpolicy⟩ := hk
    rcases blobPage_first hmode hb hpolicy hahead with hmem | ⟨_, hlt⟩
    · exact .inl (List.mem_map.mpr ⟨b, hmem, key_of_get hb⟩)
    · refine .inr fun j hj => ?_
      obtain ⟨x, hx, rfl⟩ := List.mem_map.mp hj
      exact hlt x hx
  · have hahead := h.ahead k hk
    obtain ⟨b, hb, hpolicy⟩ := hk
    rcases blobPage_first hmode hb hpolicy hahead with hmem | ⟨hne, _⟩
    · rw [hnil] at hmem
      simp at hmem
    · exact hne hnil

theorem InSource.of_current {b : FileBlob} (h : Current cfg s.db.blobs b) : InSource cfg s b.id := ⟨b, h.1, h.2⟩

theorem stepWorker_covered {w w' : Worker} (hlaw : cfg.Law) (hmode : cfg.mode = .normal) (hS : Sound cfg s₀ s)
    (hK : Knows cfg s w) (hC : Covered cfg s₀ s) (hR : Reached cfg s w)
    (h : stepWorker cfg s a w = some (s', w')) : Covered cfg s₀ s' ∧ Reached cfg s' w' := by
  have hnot : cfg.mode ≠ .recoverAvailable := fun h => nomatch hmode.symm.trans h
  have hstage : ∀ stage, Covered cfg s₀ (s.setStage stage) := fun _ => hC.plain rfl rfl rfl hC.emptied
  have keeps : ∀ {run}, statement s a run = some (s', w') →
      (∀ now, Covered cfg s₀ (run now).1 ∧ Reached cfg (run now).1 (run now).2) → Covered cfg s₀ s' ∧ Reached cfg s' w' :=
    fun h hrun => statement_keeps (fun x => Covered cfg s₀ x.1 ∧ Reached cfg x.1 x.2) h ⟨hC, trivial⟩ hrun
  cases w with
  | idle =>
    cases a with
    | claim =>
      simp only [stepWorker] at h
      split_ifs at h
      cases h
      exact ⟨hC, trivial⟩
    | _ => simp [stepWorker] at h
  | prepare =>
    exact keeps h fun _ => ⟨hC, trivial⟩
  | setStage hasStored =>
    exact keeps h fun _ => ⟨hstage _, trivial⟩
  | loadCheckpoint hasStored =>
    refine keeps h fun _ => ?_
    rw [hmode]
    exact ⟨hC, rfl⟩
  | setRecoveryStage hasStored cursor | findRecoverySource hasStored cursor => exact absurd hK hnot
  | findRecoveryTarget hasStored cursor b | recoverVirtual hasStored cursor b found | recordFailure id e rest =>
    exact absurd hK.1 hnot
  | page cursor =>
    refine keeps h fun _ => ?_
    refine ⟨hC, ?_⟩
    obtain rfl : cursor = s.checkpoint.lastProcessedBlobId := hR
    obtain ⟨hbeyond, hempty⟩ := hC.page hmode
    have hqueue : Queue cfg s.db.blobs (blobPage cfg s.db.blobs s.checkpoint.lastProcessedBlobId) := blobPage_queue _ _
    rcases hpage : blobPage cfg s.db.blobs s.checkpoint.lastProcessedBlobId with _ | ⟨b, rest⟩
    · exact hempty hpage
    · rw [hpage] at hqueue hbeyond
      exact ⟨.of_current (hqueue.current b mem_cons_self), hbeyond⟩
  | blob id pc rest =>
    obtain ⟨hpc, hqueue, hbehind⟩ := hK
    obtain ⟨hin, hbeyond⟩ := hR
    obtain ⟨⟨s₁, n⟩, hstep, hr⟩ := map_eq_some_iff.mp h
    cases hr
    rcases stepBlob_ok hlaw hS.owned hpc hstep with ⟨hq, hn⟩ | ⟨hd, rfl⟩
    · refine ⟨hC.plain hq.db hq.counted (congrArg _ hq.checkpoint) (hq.succeeded ▸ hC.emptied), ?_⟩
      cases n with
      | goto pc => exact ⟨(InSource.congr hq.db id).mpr hin, fun k hk => hbeyond k ((InSource.congr hq.db k).mp hk)⟩
      | done => exact hn.elim
      | failed e =>
        show Reached cfg s₁ (afterFailure cfg id rest e)
        unfold afterFailure
        rw [if_neg fun hrecover => hnot hrecover.1]
        trivial
    · exact ⟨hC.handled hmode hd hin (hbeyond.first hbehind), hbeyond.handled hd⟩
  | reload rest =>
    refine keeps h fun _ => ?_
    refine ⟨hC, ?_⟩
    cases rest with
    | nil => rfl
    | cons b rest => exact ⟨.of_current (hK.current b mem_cons_self), hR⟩
  | complete =>
    exact keeps h fun _ => ⟨hstage _, hR⟩
  | countRemaining =>
    exact keeps h fun _ => ⟨hC, hR⟩
  | markSucceeded remaining =>
    exact keeps h fun _ => ⟨hC.plain rfl rfl rfl fun _ => hR, trivial⟩

end

/-! ### Runs -/

/-- The attempts of a task, one worker at a time. -/
def attempts : Lts (Store × Worker) Act := ⟨fun x a => step cfg x.1 x.2 a⟩

/-- The store when the task has been created. -/
structure Ready (s : Store) : Prop where
  owned : Owned cfg s.db.blobs
  counts : Counted s.db
  positive : ∀ k, InSource cfg s k → 0 < k
  checkpoint : s.checkpoint = {}
  counted : s.counted = []
  succeeded : s.succeeded = false

section

variable {cfg} {s s₀ : Store} {w : Worker}

theorem Ready.sound (h : Ready cfg s) : Sound cfg s s := by
  refine ⟨h.owned, h.counts, ⟨?_, ?_⟩, .refl s⟩
  · rw [h.checkpoint]
    rfl
  · rw [h.checkpoint, h.counted]
    rfl

theorem Ready.covered (h : Ready cfg s) : Covered cfg s s := by
  refine ⟨fun k hk => ?_, fun k hk => ?_, ?_, fun k => ?_, fun hs => ?_⟩
  · rw [h.checkpoint]
    exact h.positive k hk
  · rw [h.counted] at hk
    simp at hk
  · rw [h.counted]
    exact nodup_nil
  · rw [h.counted]
    simp
  · rw [h.succeeded] at hs
    simp at hs

variable {x : Store × Worker}

theorem attempts_ok {x' : Store × Worker} {a : Act} (h : (attempts cfg).step x a = some x') :
    x' = (x.1, .idle) ∨ stepWorker cfg x.1 a x.2 = some (x'.1, x'.2) := by
  cases a with
  | crash => exact .inl (some.inj h).symm
  | _ => exact .inr h

theorem reach_sound (hlaw : cfg.Law) (hready : Ready cfg s₀)
    (h : Lts.Reach (attempts cfg) Lts.free (s₀, .idle) x) : Sound cfg s₀ x.1 ∧ Knows cfg x.1 x.2 := by
  have hstart : Sound cfg s₀ s₀ ∧ Knows cfg s₀ .idle := ⟨hready.sound, trivial⟩
  refine h.induct (I := fun x => Sound cfg s₀ x.1 ∧ Knows cfg x.1 x.2) hstart ?_
  intro x x' a hx _ hstep
  rcases attempts_ok hstep with rfl | hstep
  · exact ⟨hx.1, trivial⟩
  · exact stepWorker_ok hlaw hx.1 hx.2 hstep

theorem reach_covered (hlaw : cfg.Law) (hready : Ready cfg s₀) (hmode : cfg.mode = .normal)
    (h : Lts.Reach (attempts cfg) Lts.free (s₀, .idle) x) : Covered cfg s₀ x.1 ∧ Reached cfg x.1 x.2 := by
  have hstart : Covered cfg s₀ s₀ ∧ Reached cfg s₀ .idle := ⟨hready.covered, trivial⟩
  refine h.strengthen (I := fun x => Covered cfg s₀ x.1 ∧ Reached cfg x.1 x.2) (fun h => reach_sound hlaw hready h)
    hstart ?_
  intro x x' a hC hS _ _ hstep
  rcases attempts_ok hstep with rfl | hstep
  · exact ⟨hC.1, trivial⟩
  · exact stepWorker_covered hlaw hmode hS.1 hS.2 hC.1 hC.2 hstep

/-- The blobs of the source policy, by id. -/
def sourceIds (cfg : Setup) (s : Store) : List ℕ :=
  (s.db.blobs.rows.filter fun b => b.policyId = cfg.sourcePolicyId).map FileBlob.id

theorem mem_sourceIds {k : ℕ} : k ∈ sourceIds cfg s ↔ InSource cfg s k := by
  unfold sourceIds InSource
  rw [List.mem_map]
  constructor
  · rintro ⟨b, hb, rfl⟩
    obtain ⟨hrow, hpolicy⟩ := mem_filter.mp hb
    exact ⟨b, get_of_mem hrow, of_decide_eq_true hpolicy⟩
  · rintro ⟨b, hb, hpolicy⟩
    exact ⟨b, mem_filter.mpr ⟨mem_of_get hb, decide_eq_true hpolicy⟩, key_of_get hb⟩

theorem Covered.perm (h : Covered cfg s₀ s) (hnone : ∀ k, ¬ InSource cfg s k) : s.counted.Perm (sourceIds cfg s₀) := by
  refine (perm_ext_iff_of_nodup h.once ?_).mpr fun k => ?_
  · exact s₀.db.blobs.unique.sublist (List.filter_sublist.map _)
  · rw [mem_sourceIds, h.all k]
    exact ⟨.inl, fun hk => hk.resolve_right (hnone k)⟩

end

/-- **Exactly once, across restarts.** The references are the same and read the same, but for those whose object was
gone or not the one its SHA-256 key names, which may now read the one it names; every row counts its references; every
scanned blob has one outcome; and after a normal migration the source policy is empty, each of its blobs counted
once. -/
theorem migrated_once {s₀ s : Store} {w : Worker} (hlaw : cfg.Law) (hready : Ready cfg s₀)
    (h : Lts.Reach (attempts cfg) Lts.free (s₀, .idle) (s, w)) :
    ReferencesKept cfg s₀ s ∧ Counted s.db ∧
      s.checkpoint.scannedBlobs = s.checkpoint.migratedBlobs + s.checkpoint.mergedBlobs
        + s.checkpoint.skippedBlobs + s.checkpoint.failedBlobs ∧
      (s.succeeded = true → cfg.mode = .normal → sourceIds cfg s = [] ∧ s.counted.Perm (sourceIds cfg s₀) ∧
        s.checkpoint.scannedBlobs = s.counted.length) := by
  have hS := (reach_sound hlaw hready h).1
  refine ⟨hS.follow.kept, hS.counts, hS.tally.scanned, fun hsucceeded hmode => ?_⟩
  have hC := (reach_covered hlaw hready hmode h).1
  have hnone := hC.emptied hsucceeded
  refine ⟨eq_nil_iff_forall_not_mem.mpr fun k hk => hnone k ((mem_sourceIds).mp hk), hC.perm hnone, hS.tally.log⟩

/-! ### Two migrations -/

/-- A digest that repeats the content, as characters. -/
def spell (body : Body) : String := String.ofList (body.map fun byte => Char.ofNat byte.toNat)

theorem spell_injective : Function.Injective spell := by
  have hchar : ∀ byte : UInt8, (Char.ofNat byte.toNat).toNat = byte.toNat := by
    intro byte
    have hlt := byte.toNat_lt
    have hvalid : byte.toNat.isValidChar := .inl (by omega)
    rw [Char.ofNat, dif_pos hvalid]
    rfl
  intro a b h
  refine map_injective_iff.mpr (fun x y hxy => ?_) (String.ofList_injective h)
  have hnat : x.toNat = y.toNat := by
    rw [← hchar x, ← hchar y]
    exact congrArg Char.toNat hxy
  exact UInt8.toNat_inj.mp hnat

/-- The content whose digest is sixty-four times the letter a. -/
def letters : Body := List.replicate 64 97

def key : String := "aaaaaaaaaaaaaaaaaaaaaaaaaaaaaaaaaaaaaaaaaaaaaaaaaaaaaaaaaaaaaaaa"

def plain : Setup where
  sha256 := spell
  storagePathFromBlobKey := .ok
  inferStorageErrorKind _ := .unknown
  sourcePolicyId := 1
  targetPolicyId := 2
  mode := .normal
  targetMultipartPartSize := 0
  multipart := none

theorem plain_law : plain.Law := by
  refine ⟨by decide, spell_injective, fun k k' path hk hk' => ?_⟩
  exact (Except.ok.inj hk).trans (Except.ok.inj hk').symm

/-- A file of one user. -/
def fileOf (id blobId : ℕ) : File where
  id := id
  ownerUserId := some 1
  teamId := none
  folderId := none
  name := toString id
  blobId := blobId
  size := 0
  mimeType := "text/plain"
  updatedAt := 0

/-- A row of `key`, an empty row, and a target policy without rows; one file for each. -/
def before : Store where
  db := {
    blobs := ⟨⟨[⟨1, key, 1, .stored, some "old", 64, 1⟩, ⟨2, emptySha256, 1, .virtualEmpty, none, 0, 1⟩], by decide⟩,
      3, by decide⟩
    files := ⟨⟨[fileOf 1 1, fileOf 2 2], by decide⟩, 3, by decide⟩
    histories := .empty
    revisions := .empty
    usage := .empty }
  objects policyId path := if policyId = 1 ∧ path = "old" then some letters else none

/-- Two rows of `key`, and one file. In the source policy the object is gone. -/
def broken : Store where
  db := {
    blobs := ⟨⟨[⟨1, key, 1, .stored, some "old", 64, 1⟩, ⟨2, key, 2, .stored, some key, 64, 0⟩], by decide⟩, 3,
      by decide⟩
    files := ⟨⟨[fileOf 1 1], by decide⟩, 2, by decide⟩
    histories := .empty
    revisions := .empty
    usage := .empty }
  objects policyId path := if policyId = 2 ∧ path = key then some letters else none

theorem ready_of_rows {s : Store} {cfg : Setup} (hplaced : ∀ b ∈ s.db.blobs.rows, Placed cfg b)
    (hcounts : ∀ b ∈ s.db.blobs.rows, b.refCount = currentBlobRefCount s.db b.id)
    (hpositive : ∀ b ∈ s.db.blobs.rows, 0 < b.id) (hcheckpoint : s.checkpoint = {}) (hcounted : s.counted = [])
    (hsucceeded : s.succeeded = false) : Ready cfg s := by
  refine ⟨fun k b hb => hplaced b (mem_of_get hb), fun k b hb => ?_, ?_, hcheckpoint, hcounted, hsucceeded⟩
  · rw [← key_of_get hb]
    exact hcounts b (mem_of_get hb)
  · rintro k ⟨b, hb, _⟩
    exact key_of_get hb ▸ hpositive b (mem_of_get hb)

theorem before_ready : Ready plain before := by
  refine ready_of_rows (fun b hb => ?_) (by decide) (by decide) rfl rfl rfl
  have hpolicy : b.policyId ≠ plain.targetPolicyId := by
    have hall : ∀ b ∈ before.db.blobs.rows, b.policyId ≠ plain.targetPolicyId := by decide
    exact hall b hb
  have hempty : ∀ b ∈ before.db.blobs.rows, b.backing = .virtualEmpty → b.storagePath = none := by decide
  exact ⟨hempty b hb, fun h => absurd h hpolicy⟩

theorem broken_ready : Ready plain broken := by
  refine ready_of_rows (fun b hb => ?_) (by decide) (by decide) rfl rfl rfl
  have hempty : ∀ b ∈ broken.db.blobs.rows, b.backing = .virtualEmpty → b.storagePath = none := by decide
  have hkey : ∀ b ∈ broken.db.blobs.rows, b.policyId = 2 → b.storagePath = some b.hash ∧ b.backing = .stored := by
    decide
  refine ⟨hempty b hb, fun hpolicy k path hk hpath => ?_⟩
  obtain ⟨hown, hstored⟩ := hkey b hb hpolicy
  cases hk
  exact ⟨some.inj (hown.symm.trans hpath), hstored⟩

/-- The call is carried out. -/
def go : Act := .ok 0 ""

/-- The first attempt stops when the object has been written; the second one writes it again. -/
def twoAttempts : List Act :=
  [.claim, go, go, go, go, go, go, go, .writes (some letters) none, .crash, .claim, go, go, go, go, go, go, go,
    .writes (some letters) none, go, go, go, go, go, go, go, go, go, go, go, go]

theorem migrated_once_after_crash : ∃ s w, Lts.Reach (attempts plain) Lts.free (before, .idle) (s, w) ∧
    s.succeeded = true ∧ content s 1 = some letters ∧ content s 2 = some [] ∧
    ReferencesKept plain before s ∧ Counted s.db ∧
      s.checkpoint.scannedBlobs = s.checkpoint.migratedBlobs + s.checkpoint.mergedBlobs
        + s.checkpoint.skippedBlobs + s.checkpoint.failedBlobs ∧
      (s.succeeded = true → plain.mode = .normal → sourceIds plain s = [] ∧ s.counted.Perm (sourceIds plain before) ∧
        s.checkpoint.scannedBlobs = s.counted.length) := by
  have hrun : (((attempts plain).run Lts.free twoAttempts (before, .idle)).map fun x =>
      (x.1.succeeded, content x.1 1, content x.1 2)) = some (true, some letters, some []) := by decide
  obtain ⟨⟨s, w⟩, hx, hsucceeded, hcontents⟩ := map_pair_eq_some hrun
  obtain ⟨hfirst, hsecond⟩ := Prod.mk.inj hcontents
  have hreach := Lts.reach_of_run hx
  exact ⟨s, w, hreach, hsucceeded, hfirst, hsecond, migrated_once plain plain_law before_ready hreach⟩

/-- The row of the target policy takes the reference over. -/
def oneMerge : List Act := [.claim, go, go, go, go, go, go, go, go, go]

/-- **A reference may read what it did not read before**: nothing before the merge, and its content after it. -/
theorem merge_repairs : ¬ ∀ (cfg : Setup) (s₀ s : Store) (w : Worker), cfg.Law → Ready cfg s₀ →
    Lts.Reach (attempts cfg) Lts.free (s₀, .idle) (s, w) →
    List.Forall₂ (fun p p' => p'.1 = p.1 ∧ content s p'.2 = content s₀ p.2) (references s₀.db) (references s.db) := by
  intro hall
  have hrun : (((attempts plain).run Lts.free oneMerge (broken, .idle)).map fun x =>
      (references x.1.db, content x.1 2)) = some ([(.file 1, 2)], some letters) := by decide
  obtain ⟨⟨s, w⟩, hx, hrefs, hcontent⟩ := map_pair_eq_some hrun
  have hkept := hall plain broken s w plain_law broken_ready (Lts.reach_of_run hx)
  have hbefore : references broken.db = [(.file 1, 1)] := by decide
  have hmissing : content broken 1 = none := by decide
  rw [show references s.db = [(.file 1, 2)] from hrefs, hbefore, forall₂_cons] at hkept
  have hsame : content s 2 = content broken 1 := hkept.1.2
  exact nomatch hsame.symm.trans hcontent

end AsterDrive.Storage.Migration
