import AsterDrive.Storage.MigrationRaces

/-!
# Storage/MigrationSafety — what keeps the content while blobs move

Rows change in few ways: a count changes, a store adds a row or a reference, a blob of the source policy moves, and a
merge hands references over. `Keeps` is what they have in common, and what a worker that has read a row can rely on;
`Safe` is what each of them does for the content. `Knows` says what a worker has learned that no other worker undoes.
-/

namespace AsterDrive.Storage.MigrationRaces

open Interleave Db Migration List Option Function
open DedupStore (Job Recounted)

variable (cfg : Setup)

/-- A key that names a content. -/
def Keyed (hash : String) : Prop := isContentSha256BlobKey hash = true ∨ ∃ body, hash = cfg.sha256 body

/-- Beside `Setup.Law`: digests are accepted as keys, and a key that a migration makes up is none. -/
structure Law : Prop extends cfg.Law where
  accepted : ∀ body, ∃ path, cfg.storagePathFromBlobKey (cfg.sha256 body) = .ok path
  made : ∀ body uuid, cfg.sha256 body ≠ "migration-" ++ uuid

/-- The rows are in order, and references to a row with a content's key were created for that content. -/
structure Orderly (s : Shared) : Prop where
  filed : DedupStore.Filed (dedup cfg) s.blobs
  owned : ∀ k b, s.blobs.get k = some b → ∀ key path, cfg.storagePathFromBlobKey key = .ok path →
    b.storagePath = some path → b.hash = key ∧ b.backing = .stored
  empty : ∀ k b, s.blobs.get k = some b → b.backing = .virtualEmpty → b.storagePath = none
  genuine : ∀ k b, s.blobs.get k = some b → b.backing = .stored → Keyed cfg b.hash →
    ∀ body ∈ s.written k, cfg.sha256 body = b.hash
  void : ∀ k b, s.blobs.get k = some b → b.backing = .virtualEmpty → ∀ body ∈ s.written k, body = []
  fresh : ∀ k, s.blobs.next ≤ k → s.written k = []

/-! ### What a reader of a row can rely on -/

/-- A row stays as it is but for its count, or moves from the source policy to the target policy. -/
def Became (b x : FileBlob) : Prop :=
  x.backing = b.backing ∧ (x = { b with refCount := x.refCount } ∨
    (b.policyId = cfg.sourcePolicyId ∧ x.policyId = cfg.targetPolicyId))

/-- Every row is an old one that became what it is, or new. -/
structure Keeps (t t' : Blobs) : Prop where
  next : t.next ≤ t'.next
  row : ∀ k x', t'.get k = some x' → (∃ x, t.get k = some x ∧ Became cfg x x') ∨ t.next ≤ k

/-- The row was read once. -/
structure Read (t : Blobs) (b : FileBlob) : Prop where
  below : b.id < t.next
  became : ∀ x, t.get b.id = some x → Became cfg b x

/-- What a step does for the content, whoever makes it; `except` is the row whose claim it may end. -/
structure Safe (s s' : Shared) (except : Option ℕ) : Prop where
  orderly : Orderly cfg s'
  intact : Intact s'
  keeps : Keeps cfg s.blobs s'.blobs
  claims : ∀ k x, some k ≠ except → s.blobs.get k = some x → x.refCount = blobCleanupClaimedRefCount →
    ∃ x', s'.blobs.get k = some x' ∧ x'.refCount = blobCleanupClaimedRefCount

section

variable {cfg} {s s' : Shared} {t t' t'' : Blobs} {b x y : FileBlob} {k id : ℕ} {except : Option ℕ}

theorem Became.refl (b : FileBlob) : Became cfg b b := ⟨rfl, .inl rfl⟩

theorem Became.trans (hxy : Became cfg b x) (hyz : Became cfg x y) : Became cfg b y := by
  obtain ⟨hback, hsame | ⟨hsource, htarget⟩⟩ := hxy
  · obtain ⟨hback', hsame' | ⟨hsource', htarget'⟩⟩ := hyz
    · refine ⟨hback'.trans hback, .inl ?_⟩
      rw [hsame', hsame]
    · refine ⟨hback'.trans hback, .inr ⟨?_, htarget'⟩⟩
      rw [hsame] at hsource'
      exact hsource'
  · obtain ⟨hback', hsame' | ⟨_, htarget'⟩⟩ := hyz
    · refine ⟨hback'.trans hback, .inr ⟨hsource, ?_⟩⟩
      rw [hsame']
      exact htarget
    · exact ⟨hback'.trans hback, .inr ⟨hsource, htarget'⟩⟩

theorem Became.still (h : Became cfg b x) (hne : cfg.sourcePolicyId ≠ cfg.targetPolicyId)
    (hx : x.policyId = cfg.sourcePolicyId) : x = { b with refCount := x.refCount } :=
  h.2.resolve_right fun hmoved => hne (hx.symm.trans hmoved.2)

theorem Became.settled (h : Became cfg b x) (hne : cfg.sourcePolicyId ≠ cfg.targetPolicyId)
    (hb : b.policyId = cfg.targetPolicyId) : x = { b with refCount := x.refCount } :=
  h.2.resolve_right fun hmoved => hne (hmoved.1.symm.trans hb)

theorem Keeps.refl (t : Blobs) : Keeps cfg t t := ⟨le_refl _, fun _ x' hx' => .inl ⟨x', hx', .refl x'⟩⟩

theorem Keeps.of_recounted (h : Recounted t t') : Keeps cfg t t' := by
  refine ⟨h.next.ge, fun k x' hx' => ?_⟩
  obtain ⟨x, hx, heq⟩ := h.row k x' hx'
  refine .inl ⟨x, hx, ?_, .inl heq⟩
  rw [heq]

theorem Read.keep (h : Read cfg t b) (hk : Keeps cfg t t') : Read cfg t' b := by
  refine ⟨lt_of_lt_of_le h.below hk.next, fun x' hx' => ?_⟩
  rcases hk.row b.id x' hx' with ⟨x, hx, hbecame⟩ | hle
  · exact (h.became x hx).trans hbecame
  · have hlt := h.below
    omega

theorem Read.of_get (h : t.get k = some b) : Read cfg t b := by
  have hid : b.id = k := Table.key_of_get h
  subst hid
  refine ⟨SerialTable.lt_next_of_get h, fun x hx => ?_⟩
  obtain rfl := some.inj (h.symm.trans hx)
  exact .refl b

/-! ### Contents -/

/-- What a row reads. -/
def rowContent (objects : ℕ → String → Option Body) (b : FileBlob) : Option Body :=
  match b.backing with
  | .virtualEmpty => some []
  | .stored => b.storagePath.bind (objects b.policyId)

theorem content_of_get {store : Store} (h : store.db.blobs.get k = some b) :
    content store k = rowContent store.objects b := by
  unfold content
  rw [h]
  rfl

theorem rowContent_stored {objects : ℕ → String → Option Body} {path : String} (hb : b.backing = .stored)
    (hpath : b.storagePath = some path) : rowContent objects b = objects b.policyId path := by
  unfold rowContent
  rw [hb]
  show b.storagePath.bind _ = _
  rw [hpath]
  rfl

theorem rowContent_empty {objects : ℕ → String → Option Body} (hb : b.backing = .virtualEmpty) :
    rowContent objects b = some [] := by
  unfold rowContent
  rw [hb]

/-- The property, for one row. -/
def IntactRow (s : Shared) (k : ℕ) (b : FileBlob) : Prop :=
  ∃ body, rowContent s.store.objects b = some body ∧ ∀ written ∈ s.written k, written = body

theorem intact_iff : Intact s ↔ ∀ k b, s.blobs.get k = some b → 0 < b.refCount → IntactRow s k b := by
  constructor
  · intro h k b hb hpos
    obtain ⟨body, hcontent, hwritten⟩ := h k b hb hpos
    exact ⟨body, (content_of_get hb).symm.trans hcontent, hwritten⟩
  · intro h k b hb hpos
    obtain ⟨body, hcontent, hwritten⟩ := h k b hb hpos
    exact ⟨body, (content_of_get hb).trans hcontent, hwritten⟩

theorem IntactRow.of_digest {body : Body} (hlaw : Law cfg) (hO : Orderly cfg s) (hb : s.blobs.get k = some b)
    (hstored : b.backing = .stored) (hkeyed : Keyed cfg b.hash)
    (hbody : rowContent s.store.objects b = some body) (hdigest : cfg.sha256 body = b.hash) : IntactRow s k b :=
  ⟨body, hbody, fun written hw => hlaw.sha256 ((hO.genuine k b hb hstored hkeyed written hw).trans hdigest.symm)⟩

/-! ### Steps that change no row -/

theorem Orderly.congr (h : Orderly cfg s) (hblobs : s'.blobs = s.blobs) (hwritten : s'.written = s.written) :
    Orderly cfg s' := by
  refine ⟨?_, ?_, ?_, ?_, ?_, ?_⟩
  · rw [hblobs]
    exact h.filed
  · rw [hblobs]
    exact h.owned
  · rw [hblobs]
    exact h.empty
  · rw [hblobs, hwritten]
    exact h.genuine
  · rw [hblobs, hwritten]
    exact h.void
  · rw [hblobs, hwritten]
    exact h.fresh

theorem Intact.congr (h : Intact s) (hblobs : s'.blobs = s.blobs) (hwritten : s'.written = s.written)
    (hobjects : s'.store.objects = s.store.objects) : Intact s' := by
  rw [intact_iff] at h ⊢
  unfold IntactRow at h ⊢
  rw [hblobs, hwritten, hobjects]
  exact h

theorem Safe.congr {s'' : Shared} (h : Safe cfg s s' except) (hblobs : s''.blobs = s'.blobs)
    (hwritten : s''.written = s'.written) (hobjects : s''.store.objects = s'.store.objects) :
    Safe cfg s s'' except := by
  refine ⟨h.orderly.congr hblobs hwritten, h.intact.congr hblobs hwritten hobjects, ?_, ?_⟩
  · rw [hblobs]
    exact h.keeps
  · rw [hblobs]
    exact h.claims

theorem Safe.refl (hO : Orderly cfg s) (hI : Intact s) : Safe cfg s s except :=
  ⟨hO, hI, .refl _, fun _ x _ hx hclaim => ⟨x, hx, hclaim⟩⟩

theorem Safe.wrote (hO : Orderly cfg s) (hI : Intact s) {policyId : ℕ} {path : String} {object : Option Body}
    (hfree : ∀ k b, s.blobs.get k = some b → 0 < b.refCount → b.policyId = policyId → b.storagePath = some path →
      object = s.store.objects policyId path) :
    Safe cfg s (s.setObject policyId path object) except := by
  refine ⟨⟨hO.filed, hO.owned, hO.empty, hO.genuine, hO.void, hO.fresh⟩, ?_, .refl _,
    fun k x _ hx hclaim => ⟨x, hx, hclaim⟩⟩
  rw [intact_iff]
  intro k b hb hpos
  obtain ⟨body, hcontent, hwritten⟩ := (intact_iff).mp hI k b hb hpos
  refine ⟨body, ?_, hwritten⟩
  rw [← hcontent]
  cases hbacking : b.backing with
  | virtualEmpty => rw [rowContent_empty hbacking, rowContent_empty hbacking]
  | stored =>
    rcases hpath : b.storagePath with _ | q
    · unfold rowContent
      rw [hbacking]
      show b.storagePath.bind _ = b.storagePath.bind _
      rw [hpath]
      rfl
    · rw [rowContent_stored hbacking hpath, rowContent_stored hbacking hpath]
      show (if b.policyId = policyId ∧ q = path then object else s.store.objects b.policyId q) = _
      split_ifs with hsame
      · rw [hsame.1, hsame.2]
        exact hfree k b hb hpos hsame.1 (hsame.2 ▸ hpath)
      · rfl

theorem unused_ok {policyId : ℕ} {path : String} (h : unused t policyId path = true) (hb : t.get k = some b)
    (hpos : 0 < b.refCount) (hpolicy : b.policyId = policyId) : b.storagePath ≠ some path := by
  intro hpath
  have hrow := List.all_eq_true.mp h b (Table.mem_of_get hb)
  rw [decide_eq_true_eq] at hrow
  rcases hrow with hnot | hle
  · exact hnot ⟨hpolicy, hpath⟩
  · omega

/-! ### Counts -/

/-- The rows are the old ones, with other counts, and references were created for what the keys say. -/
theorem Orderly.rewritten (hO : Orderly cfg s) (hr : Recounted s.blobs s'.blobs)
    (hwritten : ∀ k x, s.blobs.get k = some x → ∀ body ∈ s'.written k, body ∈ s.written k ∨
      ((x.backing = .stored → cfg.sha256 body = x.hash) ∧ (x.backing = .virtualEmpty → body = [])))
    (hfresh : ∀ k, s.blobs.next ≤ k → s'.written k = []) : Orderly cfg s' := by
  refine ⟨hO.filed.recount hr, ?_, ?_, ?_, ?_, ?_⟩
  · intro k y hy
    obtain ⟨x, hx, heq⟩ := hr.row k y hy
    rw [heq]
    exact hO.owned k x hx
  · intro k y hy
    obtain ⟨x, hx, heq⟩ := hr.row k y hy
    rw [heq]
    exact hO.empty k x hx
  · intro k y hy
    obtain ⟨x, hx, heq⟩ := hr.row k y hy
    rw [heq]
    intro hstored hkeyed body hbody
    rcases hwritten k x hx body hbody with hold | hnew
    · exact hO.genuine k x hx hstored hkeyed body hold
    · exact hnew.1 hstored
  · intro k y hy
    obtain ⟨x, hx, heq⟩ := hr.row k y hy
    rw [heq]
    intro hempty body hbody
    rcases hwritten k x hx body hbody with hold | hnew
    · exact hO.void k x hx hempty body hold
    · exact hnew.2 hempty
  · intro k hk
    refine hfresh k ?_
    rw [← hr.next]
    exact hk

theorem Safe.recount (hO : Orderly cfg s) (hI : Intact s) (hr : Recounted s.blobs t')
    (hpos : ∀ k x y, s.blobs.get k = some x → t'.get k = some y → 0 < y.refCount → 0 < x.refCount)
    (hclaims : ∀ k x, some k ≠ except → s.blobs.get k = some x → x.refCount = blobCleanupClaimedRefCount →
      ∃ x', t'.get k = some x' ∧ x'.refCount = blobCleanupClaimedRefCount) :
    Safe cfg s (s.withBlobs t') except := by
  refine ⟨hO.rewritten hr (fun _ _ _ body hbody => .inl hbody) hO.fresh, ?_, .of_recounted hr, hclaims⟩
  rw [intact_iff]
  intro k y hy hypos
  obtain ⟨x, hx, heq⟩ := hr.row k y hy
  obtain ⟨body, hcontent, hwritten⟩ := (intact_iff).mp hI k x hx (hpos k x y hx hy hypos)
  refine ⟨body, ?_, hwritten⟩
  rw [heq]
  exact hcontent

/-! ### Stores -/

theorem pathOf_ok {key path : String} (h : cfg.storagePathFromBlobKey key = .ok path) : pathOf cfg key = path := by
  unfold pathOf
  rw [h]

theorem Law.path (hlaw : Law cfg) (job : Job Body) :
    cfg.storagePathFromBlobKey (cfg.sha256 job.body) = .ok ((dedup cfg).path job) := by
  obtain ⟨path, hpath⟩ := hlaw.accepted job.body
  rw [hpath]
  exact congrArg Except.ok (pathOf_ok hpath).symm

theorem dedup_law (hlaw : Law cfg) : (dedup cfg).Law := by
  refine ⟨fun a b h => congrArg List.length (hlaw.sha256 h), fun a b h => ?_⟩
  obtain ⟨path, hpath⟩ := hlaw.accepted a
  obtain ⟨path', hpath'⟩ := hlaw.accepted b
  have hsame : path = path' := (pathOf_ok hpath).symm.trans (Eq.trans h (pathOf_ok hpath'))
  exact hlaw.paths _ _ _ hpath (hsame ▸ hpath')

theorem Safe.referred (hlaw : Law cfg) (hO : Orderly cfg s) (hI : Intact s) {body : Body}
    (hp : Persisted s.blobs t' b) (hknown : (∃ x, s.blobs.get b.id = some x) ∨ b.id = s.blobs.next)
    (hfiled : DedupStore.Filed (dedup cfg) t')
    (howned : ∀ key path, cfg.storagePathFromBlobKey key = .ok path → b.storagePath = some path →
      b.hash = key ∧ b.backing = .stored)
    (hempty : b.backing = .virtualEmpty → b.storagePath = none ∧ body = [])
    (hgenuine : b.backing = .stored → cfg.sha256 body = b.hash)
    (hcontent : rowContent s.store.objects b = some body) :
    Safe cfg s ((s.withBlobs t').refer b.id body) except := by
  have horigin : ∀ k y, t'.get k = some y → (y = b ∧ k = b.id) ∨ (k ≠ b.id ∧ ∃ x, s.blobs.get k = some x ∧ y = x) := by
    intro k y hy
    by_cases hk : k = b.id
    · subst hk
      exact .inl ⟨some.inj (hy.symm.trans hp.get), rfl⟩
    · rcases DedupStore.origin_of_persisted hp hknown hy with ⟨x, hx, heq⟩ | ⟨_, hid, _, _⟩
      · refine .inr ⟨hk, x, hx, ?_⟩
        rw [heq, oneRef, if_neg hk, add_zero]
      · exact absurd hid hk
  have hsame : ∀ k, k ≠ b.id → ((s.withBlobs t').refer b.id body).written k = s.written k :=
    fun k hk => update_of_ne hk _ _
  have hat : ((s.withBlobs t').refer b.id body).written b.id = body :: s.written b.id := update_self ..
  -- what the row's older references were created for
  have hbefore : ∀ w ∈ s.written b.id, (b.backing = .stored → cfg.sha256 w = b.hash) ∧
      (b.backing = .virtualEmpty → w = []) := by
    intro w hw
    rcases hknown with ⟨x, hx⟩ | hid
    · have heq : b = { x with refCount := x.refCount + oneRef b.id b.id } :=
        some.inj (hp.get.symm.trans (hp.shifted.old _ _ hx))
      refine ⟨fun hstored => ?_, fun hvirtual => ?_⟩
      · have hkeyed : Keyed cfg x.hash := by
          refine .inr ⟨body, ?_⟩
          rw [hgenuine hstored, heq]
        have hxstored : x.backing = .stored := by
          rw [heq] at hstored
          exact hstored
        rw [heq]
        exact hO.genuine _ x hx hxstored hkeyed w hw
      · rw [heq] at hvirtual
        exact hO.void _ x hx hvirtual w hw
    · rw [hO.fresh b.id hid.ge] at hw
      exact absurd hw not_mem_nil
  have hO' : Orderly cfg ((s.withBlobs t').refer b.id body) := by
    refine ⟨hfiled, ?_, ?_, ?_, ?_, ?_⟩
    · intro k y hy
      rcases horigin k y hy with ⟨rfl, _⟩ | ⟨_, x, hx, rfl⟩
      · exact howned
      · exact hO.owned k y hx
    · intro k y hy
      rcases horigin k y hy with ⟨rfl, _⟩ | ⟨_, x, hx, rfl⟩
      · exact fun hvirtual => (hempty hvirtual).1
      · exact hO.empty k y hx
    · intro k y hy hstored hkeyed w hw
      rcases horigin k y hy with ⟨rfl, rfl⟩ | ⟨hk, x, hx, rfl⟩
      · rw [hat] at hw
        rcases mem_cons.mp hw with rfl | hw
        · exact hgenuine hstored
        · exact (hbefore w hw).1 hstored
      · rw [hsame k hk] at hw
        exact hO.genuine k y hx hstored hkeyed w hw
    · intro k y hy hvirtual w hw
      rcases horigin k y hy with ⟨rfl, rfl⟩ | ⟨hk, x, hx, rfl⟩
      · rw [hat] at hw
        rcases mem_cons.mp hw with rfl | hw
        · exact (hempty hvirtual).2
        · exact (hbefore w hw).2 hvirtual
      · rw [hsame k hk] at hw
        exact hO.void k y hx hvirtual w hw
    · intro k hk
      have hbelow : b.id < t'.next := SerialTable.lt_next_of_get hp.get
      have hle : t'.next ≤ k := hk
      rw [hsame k (by omega)]
      exact hO.fresh k (le_trans hp.shifted.next hle)
  refine ⟨hO', ?_, ⟨hp.shifted.next, fun k y hy => ?_⟩, ?_⟩
  · rw [intact_iff]
    intro k y hy hpos
    rcases horigin k y hy with ⟨rfl, rfl⟩ | ⟨hk, x, hx, rfl⟩
    · refine ⟨body, hcontent, fun w hw => ?_⟩
      cases hbacking : y.backing with
      | stored =>
        have hkeyed : Keyed cfg y.hash := .inr ⟨body, (hgenuine hbacking).symm⟩
        exact hlaw.sha256 ((hO'.genuine _ y hy hbacking hkeyed w hw).trans (hgenuine hbacking).symm)
      | virtualEmpty => exact (hO'.void _ y hy hbacking w hw).trans (hempty hbacking).2.symm
    · obtain ⟨body', hcontent', hwritten⟩ := intact_iff.mp hI k y hx hpos
      refine ⟨body', hcontent', fun w hw => hwritten w ?_⟩
      rw [hsame k hk] at hw
      exact hw
  · rcases DedupStore.origin_of_persisted hp hknown hy with ⟨x, hx, heq⟩ | ⟨_, rfl, hid, _⟩
    · refine .inl ⟨x, hx, ?_, .inl ?_⟩
      · rw [heq]
      · rw [heq]
    · exact .inr hid.ge
  · intro k x _ hx hclaim
    have hzero : oneRef b.id k = 0 := by
      by_contra hd
      have hnonneg := hp.shifted.active k x hx hd
      unfold blobCleanupClaimedRefCount at hclaim
      omega
    refine ⟨_, hp.shifted.old k x hx, ?_⟩
    show x.refCount + oneRef b.id k = _
    rw [hzero, add_zero, hclaim]

theorem Safe.commit (hlaw : Law cfg) (hO : Orderly cfg s) (hI : Intact s) {job : Job Body}
    (hobject : s.object cfg job = some job.body)
    (hok : findOrCreateBlob s.blobs (cfg.sha256 job.body) job.body.length job.policyId ((dedup cfg).path job) =
      .ok (b, t')) : Safe cfg s ((s.withBlobs t').refer b.id job.body) except := by
  have hc : DedupStore.Committed (dedup cfg) s.blobs job b t' := DedupStore.commit_ok hO.filed hok
  refine .referred hlaw hO hI hc.persisted hc.known (hc.filed (dedup_law hlaw) hO.filed) ?_ ?_ ?_ ?_
  · intro key path hkey hpath
    obtain rfl : (dedup cfg).path job = path := some.inj (hc.row.storagePath.symm.trans hpath)
    exact ⟨hc.row.hash.trans (hlaw.paths _ _ _ (hlaw.path job) hkey), hc.row.backing⟩
  · exact fun hvirtual => nomatch hvirtual.symm.trans hc.row.backing
  · exact fun _ => hc.row.hash.symm
  · rw [rowContent_stored hc.row.backing hc.row.storagePath, hc.row.policyId]
    exact hobject

theorem Safe.commitEmpty (hlaw : Law cfg) (hO : Orderly cfg s) (hI : Intact s) {policyId : ℕ}
    (hok : findOrCreateVirtualEmptyBlob s.blobs policyId = .ok (b, t')) :
    Safe cfg s ((s.withBlobs t').refer b.id []) except := by
  obtain ⟨hp, hrow⟩ := adoptOrInsert_ok hok
  have hknown : (∃ x, s.blobs.get b.id = some x) ∨ b.id = s.blobs.next :=
    hrow.imp (fun ⟨x, hx, _⟩ => ⟨x, hx⟩) fun h => h.1
  have hb : b.backing = .virtualEmpty ∧ b.storagePath = none := by
    rcases hrow with ⟨x, hx, _, hkey⟩ | ⟨_, _, _, hbacking, hpath⟩
    · have heq : b = { x with refCount := x.refCount + oneRef b.id b.id } :=
        some.inj (hp.get.symm.trans (hp.shifted.old _ _ hx))
      have hxbacking : x.backing = .virtualEmpty := (of_decide_eq_true hkey).2.2
      rw [heq]
      exact ⟨hxbacking, hO.empty _ x hx hxbacking⟩
    · exact ⟨hbacking, hpath⟩
  -- a row with a path is an old one
  have hold : ∀ y ∈ t'.rows, y.backing = .stored ∨ y.storagePath.isSome →
      ∃ x ∈ s.blobs.rows, y = { x with refCount := y.refCount } := by
    intro y hy hstored
    rcases DedupStore.origin_of_persisted hp hknown (Table.get_of_mem hy) with ⟨x, hx, heq⟩ | ⟨rfl, _⟩
    · refine ⟨x, Table.mem_of_get hx, ?_⟩
      rw [heq]
    · rw [hb.1, hb.2] at hstored
      simp at hstored
  refine .referred hlaw hO hI hp hknown ⟨?_, ?_, ?_⟩ ?_ (fun _ => ⟨hb.2, rfl⟩) ?_ (rowContent_empty hb.1)
  · intro y hy y' hy' path hpath hpath' hpolicy
    obtain ⟨x, hx, heq⟩ := hold y hy (.inr (hpath ▸ rfl))
    obtain ⟨x', hx', heq'⟩ := hold y' hy' (.inr (hpath' ▸ rfl))
    rw [heq] at hpath hpolicy
    rw [heq'] at hpath' hpolicy
    have hsame : x = x' := hO.filed.paths x hx x' hx' path hpath hpath' hpolicy
    refine Table.eq_of_key hy hy' ?_
    rw [heq, heq', hsame]
  · intro y hy body hhash hstored
    obtain ⟨x, hx, heq⟩ := hold y hy (.inl hstored)
    rw [heq] at hhash hstored ⊢
    exact hO.filed.placed x hx body hhash hstored
  · intro y hy body hpath
    obtain ⟨x, hx, heq⟩ := hold y hy (.inr (hpath ▸ rfl))
    rw [heq] at hpath ⊢
    exact hO.filed.owned x hx body hpath
  · intro key path _ hpath
    rw [hb.2] at hpath
    exact nomatch hpath
  · exact fun hstored => nomatch hstored.symm.trans hb.1

/-! ### Moves -/

theorem moveBlobPolicyIfCurrent_inv {moved : Bool} {source target : ℕ} {hash path : String}
    (h : moveBlobPolicyIfCurrent t id source target hash path = .ok (moved, t')) :
    t' = t ∨ ∃ x, t.get id = some x ∧ x.policyId = source ∧ t'.next = t.next ∧
      (∀ y ∈ t.rows, hasBlobKey hash target x.backing y = false) ∧
      Relocated t t' id { x with hash := hash, policyId := target, storagePath := some path } := by
  have hok := h
  unfold moveBlobPolicyIfCurrent at h
  split at h
  · exact .inl (ok_pair_inj h).2.symm
  · next x hx =>
    obtain ⟨hget, hsource⟩ := filter_eq_some_iff.mp hx
    split_ifs at h with htaken
    have hfree : ∀ y ∈ t.rows, hasBlobKey hash target x.backing y = false := by
      intro y hy
      rw [Bool.not_eq_true, List.any_eq_false] at htaken
      exact Bool.not_eq_true _ ▸ htaken y hy
    refine .inr ⟨x, hget, of_decide_eq_true hsource, ?_, hfree,
      (moveBlobPolicyIfCurrent_ok hok hget (of_decide_eq_true hsource)).2⟩
    rw [← (ok_pair_inj h).2]
    rfl

theorem moveVirtualEmptyBlobPolicyIfCurrent_inv {moved : Bool} {source target : ℕ}
    (h : moveVirtualEmptyBlobPolicyIfCurrent t id source target = .ok (moved, t')) :
    t' = t ∨ ∃ x, t.get id = some x ∧ x.policyId = source ∧ x.backing = .virtualEmpty ∧ t'.next = t.next ∧
      Relocated t t' id { x with policyId := target } := by
  have hok := h
  unfold moveVirtualEmptyBlobPolicyIfCurrent at h
  split at h
  · exact .inl (ok_pair_inj h).2.symm
  · next x hx =>
    obtain ⟨hget, hrow⟩ := filter_eq_some_iff.mp hx
    obtain ⟨hsource, hempty⟩ := of_decide_eq_true hrow
    split_ifs at h
    refine .inr ⟨x, hget, hsource, hempty, ?_, (moveVirtualEmptyBlobPolicyIfCurrent_ok hok hget hsource hempty).2⟩
    rw [← (ok_pair_inj h).2]
    rfl

theorem Safe.relocated (hO : Orderly cfg s) (hI : Intact s) (hx : s.blobs.get id = some x)
    (hnext : t'.next = s.blobs.next) (hrel : Relocated s.blobs t' id y) (hbecame : Became cfg x y)
    (hcount : y.refCount = x.refCount) (hfiled : DedupStore.Filed (dedup cfg) t')
    (howned : ∀ key path, cfg.storagePathFromBlobKey key = .ok path → y.storagePath = some path →
      y.hash = key ∧ y.backing = .stored)
    (hempty : y.backing = .virtualEmpty → y.storagePath = none)
    (hkeyed : y.backing = .stored → Keyed cfg y.hash → y.hash = x.hash)
    (hcontent : 0 < x.refCount → rowContent s.store.objects y = rowContent s.store.objects x) :
    Safe cfg s (s.withBlobs t') except := by
  have hrow : ∀ k z, t'.get k = some z → (k = id ∧ z = y) ∨ s.blobs.get k = some z := by
    intro k z hz
    rw [hrel k] at hz
    split_ifs at hz with hk
    · exact .inl ⟨hk, (some.inj hz).symm⟩
    · exact .inr hz
  refine ⟨⟨hfiled, ?_, ?_, ?_, ?_, ?_⟩, ?_, ⟨hnext.ge, fun k z hz => .inl ?_⟩, ?_⟩
  · intro k z hz
    rcases hrow k z hz with ⟨_, rfl⟩ | hz
    · exact howned
    · exact hO.owned k z hz
  · intro k z hz
    rcases hrow k z hz with ⟨_, rfl⟩ | hz
    · exact hempty
    · exact hO.empty k z hz
  · intro k z hz hstored hz' body hbody
    rcases hrow k z hz with ⟨rfl, rfl⟩ | hz
    · have hsame := hkeyed hstored hz'
      rw [hsame] at hz' ⊢
      exact hO.genuine k x hx (hbecame.1.symm.trans hstored) hz' body hbody
    · exact hO.genuine k z hz hstored hz' body hbody
  · intro k z hz hvirtual body hbody
    rcases hrow k z hz with ⟨rfl, rfl⟩ | hz
    · exact hO.void k x hx (hbecame.1.symm.trans hvirtual) body hbody
    · exact hO.void k z hz hvirtual body hbody
  · intro k hk
    refine hO.fresh k ?_
    rw [← hnext]
    exact hk
  · rw [intact_iff]
    intro k z hz hpos
    rcases hrow k z hz with ⟨rfl, rfl⟩ | hz
    · rw [hcount] at hpos
      obtain ⟨body, hbody, hwritten⟩ := intact_iff.mp hI k x hx hpos
      exact ⟨body, (hcontent hpos).trans hbody, hwritten⟩
    · exact intact_iff.mp hI k z hz hpos
  · rcases hrow k z hz with ⟨rfl, rfl⟩ | hz
    · exact ⟨x, hx, hbecame⟩
    · exact ⟨z, hz, .refl z⟩
  · intro k z _ hz hclaim
    by_cases hk : k = id
    · subst hk
      obtain rfl : x = z := some.inj (hx.symm.trans hz)
      exact ⟨y, (hrel k).trans (if_pos rfl), hcount.trans hclaim⟩
    · exact ⟨z, (hrel k).trans ((if_neg hk).trans hz), hclaim⟩

/-- A rewritten row is filed if nothing else has its path, and its key is where it belongs. -/
theorem filed_of_relocated (hF : DedupStore.Filed (dedup cfg) t) (hrel : Relocated t t' id y) (hid : y.id = id)
    (hpath : ∀ z ∈ t.rows, z.id ≠ id → ∀ path, y.storagePath = some path → z.storagePath = some path →
      y.policyId ≠ z.policyId)
    (hplaced : ∀ body, y.hash = cfg.sha256 body → y.backing = .stored →
      y.storagePath = some (pathOf cfg (cfg.sha256 body)) ∧ y.size = body.length)
    (howned : ∀ body, y.storagePath = some (pathOf cfg (cfg.sha256 body)) →
      y.hash = cfg.sha256 body ∧ y.backing = .stored) : DedupStore.Filed (dedup cfg) t' := by
  have hrow : ∀ z ∈ t'.rows, z = y ∨ (z ∈ t.rows ∧ z.id ≠ id) := by
    intro z hz
    have hz' := Table.get_of_mem hz
    rw [hrel z.id] at hz'
    split_ifs at hz' with hk
    · exact .inl (some.inj hz').symm
    · exact .inr ⟨Table.mem_of_get hz', hk⟩
  refine ⟨?_, ?_, ?_⟩
  · intro z hz z' hz' path hp hp' hpolicy
    rcases hrow z hz with rfl | ⟨hz, hk⟩
    · rcases hrow z' hz' with rfl | ⟨hz', hk'⟩
      · rfl
      · exact absurd hpolicy (hpath z' hz' hk' path hp hp')
    · rcases hrow z' hz' with rfl | ⟨hz', _⟩
      · exact absurd hpolicy.symm (hpath z hz hk path hp' hp)
      · exact hF.paths z hz z' hz' path hp hp' hpolicy
  · intro z hz body hhash hstored
    rcases hrow z hz with rfl | ⟨hz, _⟩
    · exact hplaced body hhash hstored
    · exact hF.placed z hz body hhash hstored
  · intro z hz body hp
    rcases hrow z hz with rfl | ⟨hz, _⟩
    · exact howned body hp
    · exact hF.owned z hz body hp

/-! ### Merges -/

theorem incrementBy_next {delta : ℤ} (h : incrementBlobRefCountBy t id delta = .ok t') :
    t'.next = t.next ∧ (0 < delta → ∃ x, t.get id = some x ∧ 0 ≤ x.refCount) := by
  unfold incrementBlobRefCountBy at h
  split_ifs at h with hneg hzero haff
  · refine ⟨congrArg SerialTable.next (Except.ok.inj h).symm, fun hpos => ?_⟩
    omega
  · refine ⟨?_, fun _ => affected_ne_zero.mp haff⟩
    rw [← Except.ok.inj h]
    rfl

theorem transferReferences_next {db db' : Db} {old target : FileBlob} {now : ℕ}
    (h : transferReferences db old target now = .ok db') :
    db'.blobs.next = db.blobs.next ∧ (0 < old.refCount → ∃ x, db.blobs.get target.id = some x ∧ 0 ≤ x.refCount) := by
  obtain ⟨blobs, hinc, h⟩ := bind_ok h
  obtain ⟨hnext, hactive⟩ := incrementBy_next hinc
  unfold deleteBlobById at h
  split_ifs at h
  refine ⟨?_, hactive⟩
  rw [← Except.ok.inj h]
  exact hnext

/-- The references that a row counts go over to another, which has the content that the key of both names. -/
theorem Safe.transferred (hlaw : Law cfg) (hO : Orderly cfg s) (hI : Intact s) {store : Store}
    {n now old target : ℕ} (hobjects : store.objects = s.store.objects) (ht : Transferred s.store.db store.db old target n now)
    (hnext : store.db.blobs.next = s.blobs.next) (hx : s.blobs.get old = some x) (hy : s.blobs.get target = some y)
    (hcount : x.refCount = n) (hactive : 0 < x.refCount → 0 ≤ y.refCount) (hback : y.backing = x.backing)
    (hkey : x.backing = .stored → Keyed cfg x.hash ∧ y.hash = x.hash)
    (hbody : 0 < x.refCount → x.backing = .stored →
      ∃ body, rowContent s.store.objects y = some body ∧ cfg.sha256 body = x.hash) :
    Safe cfg s ⟨store, if 0 < x.refCount then
      Function.update s.written target (s.written old ++ s.written target) else s.written⟩ except := by
  let s' : Shared := ⟨store, if 0 < x.refCount then
    Function.update s.written target (s.written old ++ s.written target) else s.written⟩
  have hwritten : ∀ k, k ≠ target ∨ ¬ 0 < x.refCount → s'.written k = s.written k := by
    intro k hk
    show (if 0 < x.refCount then _ else _ : ℕ → List Body) k = _
    split_ifs with hpos
    · exact update_of_ne (hk.resolve_right (not_not_intro hpos)) _ _
    · rfl
  have hat : 0 < x.refCount → s'.written target = s.written old ++ s.written target := by
    intro hpos
    show (if 0 < x.refCount then _ else _ : ℕ → List Body) target = _
    rw [if_pos hpos, update_self]
  have hr : Recounted s.blobs s'.blobs := by
    refine ⟨hnext, fun k z hz => ?_⟩
    obtain ⟨_, z0, hz0, heq⟩ := ht.row hz
    refine ⟨z0, hz0, ?_⟩
    rw [heq]
  have hO' : Orderly cfg s' := by
    refine hO.rewritten hr ?_ ?_
    · intro k z hz body hmem
      by_cases hk : k ≠ target ∨ ¬ 0 < x.refCount
      · exact .inl (hwritten k hk ▸ hmem)
      · obtain ⟨rfl, hpos⟩ : k = target ∧ 0 < x.refCount := by
          simpa only [ne_eq, not_or, not_not] using hk
        obtain rfl : y = z := some.inj (hy.symm.trans hz)
        rw [hat hpos] at hmem
        rcases mem_append.mp hmem with hmem | hmem
        · refine .inr ⟨fun hstored => ?_, fun hvirtual => ?_⟩
          · have hxstored : x.backing = .stored := hback.symm.trans hstored
            obtain ⟨hkeyed, hhash⟩ := hkey hxstored
            rw [hhash]
            exact hO.genuine _ x hx hxstored hkeyed body hmem
          · exact hO.void _ x hx (hback.symm.trans hvirtual) body hmem
        · exact .inl hmem
    · intro k hk
      have hlt : target < s.blobs.next := SerialTable.lt_next_of_get hy
      rw [hwritten k (.inl (by omega))]
      exact hO.fresh k hk
  refine ⟨hO', ?_, .of_recounted hr, ?_⟩
  · rw [intact_iff]
    intro k z hz hpos
    obtain ⟨_, z0, hz0, heq⟩ := ht.row hz
    have hsame : rowContent store.objects z = rowContent s.store.objects z0 := by
      rw [heq, hobjects]
      rfl
    by_cases hk : k ≠ target ∨ ¬ 0 < x.refCount
    · have hpos0 : 0 < z0.refCount := by
        have hcount' : z.refCount = z0.refCount + if k = target then (n : ℤ) else 0 := congrArg FileBlob.refCount heq
        split_ifs at hcount' with htarget
        · have hle : ¬ 0 < x.refCount := hk.resolve_left (not_not_intro htarget)
          omega
        · omega
      obtain ⟨body, hcontent, hall⟩ := intact_iff.mp hI k z0 hz0 hpos0
      refine ⟨body, hsame.trans hcontent, fun w hw => hall w ?_⟩
      rw [hwritten k hk] at hw
      exact hw
    · obtain ⟨rfl, hxpos⟩ : k = target ∧ 0 < x.refCount := by
        simpa only [ne_eq, not_or, not_not] using hk
      obtain rfl : y = z0 := some.inj (hy.symm.trans hz0)
      have hzback : z.backing = y.backing := by rw [heq]
      have hzhash : z.hash = y.hash := by rw [heq]
      cases hbacking : x.backing with
      | virtualEmpty =>
        have hempty : z.backing = .virtualEmpty := hzback.trans (hback.trans hbacking)
        exact ⟨[], rowContent_empty hempty, fun w hw => hO'.void _ z hz hempty w hw⟩
      | stored =>
        have hstored : z.backing = .stored := hzback.trans (hback.trans hbacking)
        obtain ⟨hkeyed, hhash⟩ := hkey hbacking
        obtain ⟨body, hcontent, hdigest⟩ := hbody hxpos hbacking
        have hz' : z.hash = x.hash := hzhash.trans hhash
        exact .of_digest hlaw hO' hz hstored (hz' ▸ hkeyed) (hsame.trans hcontent) (hdigest.trans hz'.symm)
  · intro k z _ hz hclaim
    unfold blobCleanupClaimedRefCount at hclaim ⊢
    have hold : k ≠ old := by
      rintro rfl
      obtain rfl : x = z := some.inj (hx.symm.trans hz)
      omega
    refine ⟨if k = target then { z with refCount := z.refCount + n } else z, ?_, ?_⟩
    · show store.db.blobs.get k = _
      rw [ht.blobs k, if_neg hold]
      show (s.blobs.get k).map _ = _
      rw [hz, map_some]
    · split_ifs with htarget
      · subst htarget
        obtain rfl : y = z := some.inj (hy.symm.trans hz)
        show y.refCount + (n : ℤ) = -1
        omega
      · exact hclaim

end

end AsterDrive.Storage.MigrationRaces
