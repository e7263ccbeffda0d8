import AsterDrive.Workspace.Balance
import AsterDrive.Workspace.Effects

/-!
# Invariant — a transaction under way

`Underway W s₀ s P δ ε` describes a transaction that began at `s₀` and has reached `s`: the ledger is
in order but for the files `P` that wait for their first revision, the reference counts are ahead of
the ledger by `δ` and the accounts by `ε`, and `s` extends `s₀`. `W` says which of the three books
are kept: the ledger always, the reference counts if `W.counts`, the accounts if `W.accounts`, so
that the weaker books need no assumption of the stronger ones.

There is one rule for each statement a transaction makes. A transaction that starts at
`Underway W s s ∅ 0 0` and ends at `Underway W s s' ∅ 0 0` is correct.
-/

namespace AsterDrive.Db

/-- Which books are kept, and the content hash with what the accounts rely on: digests are 64
hexadecimal digits, and among the contents that are ever stored equal digests mean equal lengths. -/
structure Watched where
  counts : Prop
  accounts : Prop
  digest : List UInt8 → String
  contents : Set (List UInt8)
  needs : accounts → counts
  hex : accounts → ∀ c ∈ contents, isContentSha256BlobKey (digest c) = true
  sizes : accounts → ∀ c ∈ contents, ∀ c' ∈ contents, digest c = digest c' → c.length = c'.length

/-- A stored row under a content's digest has the content's length; the empty row has none. -/
def Watched.Genuine (W : Watched) (b : FileBlob) : Prop :=
  match b.backing with
  | .stored => ∀ c ∈ W.contents, b.hash = W.digest c → b.size = c.length
  | .virtualEmpty => b.size = 0

/-! ### What no transaction changes -/

/-- Old ids keep their workspace. -/
structure FilesKept (files files' : Files) : Prop where
  next : files.next ≤ files'.next
  old : ∀ f' ∈ files'.rows, f'.id < files.next → ∃ f ∈ files.rows, f.id = f'.id ∧ f.workspace = f'.workspace

/-- Old rows change in nothing but their count. -/
structure BlobsKept (blobs blobs' : Blobs) : Prop where
  next : blobs.next ≤ blobs'.next
  old : ∀ k b', k < blobs.next → blobs'.get k = some b' →
    ∃ b, blobs.get k = some b ∧ b' = { b with refCount := b'.refCount }

/-- Quotas stay, and a usage that grew stays within a positive quota. -/
def UsageKept (usage usage' : Usage) : Prop :=
  ∀ w u', usage'.get w = some u' → ∃ u, usage.get w = some u ∧ u'.storageQuota = u.storageQuota ∧
    (u'.storageUsed ≤ u.storageUsed ∨ u.storageQuota ≤ 0 ∨ u'.storageUsed ≤ u.storageQuota)

structure Extends (s s' : Db) : Prop where
  files : FilesKept s.files s'.files
  blobs : BlobsKept s.blobs s'.blobs
  usage : UsageKept s.usage s'.usage

theorem FilesKept.refl (files : Files) : FilesKept files files := ⟨le_refl _, fun f hf _ => ⟨f, hf, rfl, rfl⟩⟩

theorem BlobsKept.refl (blobs : Blobs) : BlobsKept blobs blobs := ⟨le_refl _, fun _ b _ hb => ⟨b, hb, rfl⟩⟩

theorem UsageKept.refl (usage : Usage) : UsageKept usage usage := fun _ u hu => ⟨u, hu, rfl, .inl (le_refl _)⟩

theorem Extends.refl (s : Db) : Extends s s := ⟨.refl _, .refl _, .refl _⟩

theorem FilesKept.trans {a b c : Files} (hab : FilesKept a b) (hbc : FilesKept b c) :
    FilesKept a c := by
  refine ⟨le_trans hab.next hbc.next, ?_⟩
  intro z hz hlt
  obtain ⟨y, hy, hyz, hws⟩ := hbc.old z hz (lt_of_lt_of_le hlt hab.next)
  obtain ⟨x, hx, hxy, hws'⟩ := hab.old y hy (hyz ▸ hlt)
  exact ⟨x, hx, hxy.trans hyz, hws'.trans hws⟩

theorem BlobsKept.trans {a b c : Blobs} (hab : BlobsKept a b) (hbc : BlobsKept b c) :
    BlobsKept a c := by
  refine ⟨le_trans hab.next hbc.next, ?_⟩
  intro k z hlt hz
  obtain ⟨y, hy, hyz⟩ := hbc.old k z (lt_of_lt_of_le hlt hab.next) hz
  obtain ⟨x, hx, hxy⟩ := hab.old k y hlt hy
  refine ⟨x, hx, ?_⟩
  rw [hyz, hxy]

theorem UsageKept.trans {a b c : Usage} (hab : UsageKept a b) (hbc : UsageKept b c) :
    UsageKept a c := by
  intro w z hz
  obtain ⟨y, hy, hquota, hused⟩ := hbc w z hz
  obtain ⟨x, hx, hquota', hused'⟩ := hab w y hy
  refine ⟨x, hx, hquota.trans hquota', ?_⟩
  omega

theorem Extends.trans {a b c : Db} (hab : Extends a b) (hbc : Extends b c) : Extends a c :=
  ⟨hab.files.trans hbc.files, hab.blobs.trans hbc.blobs, hab.usage.trans hbc.usage⟩

theorem Shifted.kept {t t' : Blobs} {d : ℕ → ℤ} (hs : Shifted t t' d) : BlobsKept t t' := by
  refine ⟨hs.next, ?_⟩
  intro k b' hlt hb'
  rcases hk : t.get k with _ | b
  · have hle := (hs.new k b' hk hb').1
    omega
  · have hget := hs.old k b hk
    rw [hb'] at hget
    refine ⟨b, rfl, ?_⟩
    rw [Option.some.inj hget]

theorem kept_insertFile (files : Files) {mk : ℕ → File} (hmk : ∀ n, (mk n).id = n) :
    FilesKept files (files.insert mk hmk) := by
  refine ⟨Nat.le_succ _, ?_⟩
  intro f hf hlt
  rcases SerialTable.mem_insert.mp hf with hf | rfl
  · exact ⟨f, hf, rfl, rfl⟩
  · rw [hmk] at hlt
    omega

theorem kept_updateFile (files : Files) {p : File → Bool} {up : File → File}
    (hup : ∀ f, (up f).id = f.id) (hws : ∀ f, (up f).workspace = f.workspace) :
    FilesKept files (files.updateRows p up hup) := by
  refine ⟨le_refl _, ?_⟩
  intro f' hf' _
  obtain ⟨f, hf, rfl⟩ := SerialTable.mem_updateRows.mp hf'
  refine ⟨f, hf, ?_⟩
  split_ifs
  · exact ⟨(hup f).symm, (hws f).symm⟩
  · exact ⟨rfl, rfl⟩

/-! ### The books -/

/-- The accounts of all workspaces, ahead of the ledger by `ε`. -/
structure Accounts (W : Watched) (s : Db) (ε : WorkspaceResourceScope → ℤ) : Prop where
  exact : Accounted s ε
  sized : ∀ r ∈ s.revisions.rows, r.retired = false → ∀ k b, r.blobId = some k →
    s.blobs.get k = some b → b.size = r.logicalSize
  genuine : ∀ b ∈ s.blobs.rows, W.Genuine b
  floors : s.floorsTaken = 0

/-- A transaction that began at `s₀` and has reached `s`. -/
structure Underway (W : Watched) (s₀ s : Db) (P : Set ℕ) (δ : ℕ → ℤ) (ε : WorkspaceResourceScope → ℤ) : Prop where
  ledger : Ledger s.files s.histories s.revisions P
  balanced : W.counts → Balanced s.blobs s.revisions δ
  accounts : W.accounts → Accounts W s ε
  since : Extends s₀ s

/-- The books between transactions. -/
def Consistent (W : Watched) (s : Db) : Prop := Underway W s s ∅ 0 0

namespace Underway

variable {W : Watched} {s₀ s s' : Db} {P : Set ℕ} {δ : ℕ → ℤ} {ε : WorkspaceResourceScope → ℤ}

theorem finish (h : Underway W s₀ s ∅ 0 0) : Consistent W s := ⟨h.ledger, h.balanced, h.accounts, .refl s⟩

/-- **A statement on the blob table.** -/
theorem blobs (h : Underway W s₀ s P δ ε) {t' : Blobs} {δ' : ℕ → ℤ} (hkept : BlobsKept s.blobs t')
    (hbal : W.counts → Balanced t' s.revisions δ')
    (hgen : W.accounts → ∀ b ∈ t'.rows, s.blobs.next ≤ b.id → W.Genuine b) :
    Underway W s₀ { s with blobs := t' } P δ' ε := by
  refine ⟨h.ledger, hbal, ?_, h.since.trans ⟨.refl _, hkept, .refl _⟩⟩
  intro hA
  have acc := h.accounts hA
  refine ⟨acc.exact, ?_, ?_, acc.floors⟩
  · intro r hr hret k b' hk hb'
    by_cases hlt : k < s.blobs.next
    · obtain ⟨b, hb, hbb⟩ := hkept.old k b' hlt hb'
      rw [hbb]
      exact acc.sized r hr hret k b hk hb
    · -- a live revision never refers to a missing row
      have hpos : 0 < refs s.revisions k := refs_pos_of_mem hr hret hk
      have hnone := s.blobs.get_next (Nat.le_of_not_lt hlt)
      have hzero := ((h.balanced (W.needs hA)).gone k hnone).1
      omega
  · intro b' hb'
    by_cases hlt : b'.id < s.blobs.next
    · obtain ⟨b, hb, hbb⟩ := hkept.old _ b' hlt (Table.get_of_mem hb')
      rw [hbb]
      exact acc.genuine b (Table.mem_of_get hb)
    · exact hgen hA b' hb' (Nat.le_of_not_lt hlt)

/-- **Increments and new blob rows.** -/
theorem shift (h : Underway W s₀ s P δ ε) {t' : Blobs} {d : ℕ → ℤ} (hs : Shifted s.blobs t' d)
    (hgen : W.accounts → ∀ b ∈ t'.rows, s.blobs.next ≤ b.id → W.Genuine b) :
    Underway W s₀ { s with blobs := t' } P (δ + d) ε :=
  h.blobs hs.kept (fun hB => (h.balanced hB).shift hs) hgen

theorem kept_updateRefCounts (t : Blobs) (p : FileBlob → Bool) (g : FileBlob → ℤ) :
    BlobsKept t (updateRefCounts t p g) := by
  refine ⟨le_refl _, ?_⟩
  intro k b' _ hb'
  rw [get_updateRefCounts] at hb'
  obtain ⟨b, hb, rfl⟩ := Option.map_eq_some_iff.mp hb'
  refine ⟨b, hb, ?_⟩
  split_ifs <;> rfl

/-- **Decrements that were owed.** -/
theorem decrement (h : Underway W s₀ s P δ ε) {p : FileBlob → Bool} {g : FileBlob → ℤ} {d : ℕ → ℤ}
    (hd : W.counts → ∀ k, 0 ≤ d k ∧ d k ≤ δ k)
    (hget : ∀ k, (updateRefCounts s.blobs p g).get k = (s.blobs.get k).map fun b =>
      if d k = 0 then b else { b with refCount := flooredDecrement (d k) b }) :
    Underway W s₀ { s with blobs := updateRefCounts s.blobs p g } P (δ - d) ε := by
  refine h.blobs (kept_updateRefCounts ..) (fun hB => (h.balanced hB).decrement (hd hB) hget) ?_
  intro _ b hb hle
  have hlt := (updateRefCounts s.blobs p g).below b hb
  have hnext : (updateRefCounts s.blobs p g).next = s.blobs.next := rfl
  omega

/-- **A change of the accounts.** A decrease needs what it takes to be there. -/
theorem charge (h : Underway W s₀ s P δ ε) {w : WorkspaceResourceScope} {n : ℤ} {u : Unit}
    (hok : updateStorageUsedFor w n s = .ok (u, s')) (hn : W.accounts → 0 ≤ n ∨ 0 ≤ ε w + n) :
    Underway W s₀ s' P δ (ε + bytesOn w n) := by
  unfold updateStorageUsedFor at hok
  split at hok
  · simp at hok
  rename_i usage floored hupd
  cases hok
  obtain ⟨v, hv, hquota, hget, hfloor⟩ := updateStorageUsed_ok hupd
  refine ⟨h.ledger, h.balanced, ?_, h.since.trans ⟨.refl _, .refl _, ?_⟩⟩
  · intro hA
    have acc := h.accounts hA
    have hused := acc.exact w v hv
    have hpos := usedBy_nonneg s.files s.histories s.revisions w
    have hnof : floored = false := by
      rw [Bool.eq_false_iff]
      intro hf
      have := hfloor.mp hf
      have := hn hA
      omega
    refine ⟨?_, acc.sized, acc.genuine, ?_⟩
    · intro x ux hx
      rw [hget x] at hx
      rw [Pi.add_apply, bytesOn]
      by_cases hxw : x = w
      · subst hxw
        rw [if_pos rfl] at hx ⊢
        cases hx
        have := hn hA
        dsimp only
        unfold nextStorageUsed
        split_ifs <;> omega
      · rw [if_neg hxw] at hx ⊢
        rw [add_zero]
        exact acc.exact x ux hx
    · dsimp only
      rw [hnof, acc.floors]
      rfl
  · intro x ux hx
    rw [hget x] at hx
    by_cases hxw : x = w
    · subst hxw
      rw [if_pos rfl] at hx
      cases hx
      refine ⟨v, hv, rfl, ?_⟩
      dsimp only
      unfold nextStorageUsed
      split_ifs with h0 h1
      · have := hquota h0
        omega
      · omega
      · left
        omega
    · rw [if_neg hxw] at hx
      exact ⟨ux, hx, rfl, .inl (le_refl _)⟩

/-- **A file row** waits for its first revision. -/
theorem insertFile (h : Underway W s₀ s P δ ε) {d : FileDraft} {f : File}
    (hins : Inserted d s f s') : Underway W s₀ s' (insert f.id P) δ ε := by
  obtain ⟨rfl, hfree, rfl⟩ := hins
  have hname : ∀ x ∈ s.files.rows, (d.row s.files.next).liveName.isSome = true →
      x.liveName ≠ (d.row s.files.next).liveName := by
    intro x hx hsome heq
    unfold nameTaken at hfree
    rw [decide_eq_false_iff_not] at hfree
    exact hfree ⟨hsome, x, hx, heq⟩
  refine ⟨h.ledger.insertFile (fun _ => rfl) hname, h.balanced, ?_,
    h.since.trans ⟨kept_insertFile _ fun _ => rfl, .refl _, .refl _⟩⟩
  intro hA
  have acc := h.accounts hA
  refine ⟨?_, acc.sized, acc.genuine, acc.floors⟩
  intro w u hu
  refine (acc.exact w u hu).trans ?_
  congr 1
  symm
  exact usedBy_insertFile h.ledger fun _ => rfl

private theorem accounted_less {w x : WorkspaceResourceScope} {file : File}
    (hw : file.workspace = some w) {used n e : ℤ} :
    used + e = (used + if file.workspace = some x then n else 0) + (e - bytesOn w n x) := by
  rw [hw]
  unfold bytesOn
  by_cases hx : x = w
  · rw [if_pos hx, if_pos (by rw [hx])]
    omega
  · have hne : ¬ some w = some x := fun heq => hx (Option.some.inj heq).symm
    rw [if_neg hx, if_neg hne]
    omega

/-- **The first revision** of a waiting file, whose blob was counted before. -/
theorem enroll (h : Underway W s₀ s P δ ε) {file : File} (etag : String)
    (hfile : file ∈ s.files.rows) (hpend : file.id ∈ P) {w : WorkspaceResourceScope}
    (hw : file.workspace = some w) (hpaid : W.counts → δ file.blobId ≠ 0)
    (hsize : W.accounts → ∀ b, s.blobs.get file.blobId = some b → b.size = file.size) :
    Underway W s₀ (enroll s file etag) (P \ {file.id}) (δ - oneRef file.blobId) (ε - bytesOn w file.size) := by
  have hmkH : ∀ n, (firstHistory file s.revisions.next n).id = n := fun _ => rfl
  have hmkR : ∀ n, (firstRevision file etag s.histories.next n).id = n := fun _ => rfl
  refine ⟨?_, fun hB => ?_, fun hA => ?_, h.since.trans ⟨.refl _, .refl _, .refl _⟩⟩
  · exact h.ledger.enroll hfile hpend hmkH hmkR ⟨rfl, rfl, rfl⟩ ⟨rfl, rfl, rfl, rfl⟩ ⟨rfl, rfl, rfl⟩
  · exact (h.balanced hB).insert hmkR rfl rfl (hpaid hB)
  · have acc := h.accounts hA
    refine ⟨?_, ?_, acc.genuine, acc.floors⟩
    · intro x u hu
      have hused : u.storageUsed = _ := acc.exact x u hu
      rw [hused, accounted_less hw, Pi.sub_apply]
      congr 1
      exact (usedBy_enroll h.ledger hfile hmkH hmkR rfl rfl rfl).symm
    · intro r hr hret k b hk hb
      have hmem : r ∈ (s.revisions.insert _ hmkR).rows := hr
      rcases SerialTable.mem_insert.mp hmem with hr | rfl
      · exact acc.sized r hr hret k b hk hb
      · obtain rfl : file.blobId = k := Option.some.inj hk
        exact hsize hA b hb

/-- **A further revision**, with the columns of the file brought in line. -/
theorem append (h : Underway W s₀ s P δ ε) {file : File} (hfile : file ∈ s.files.rows)
    {hist : FileRevisionHistory} (hh : hist ∈ s.histories.rows) (hhf : hist.fileId = some file.id)
    (input : NewRevision) {upF : File → File} (hupF : ∀ f, (upF f).id = f.id)
    (hname : ∀ f, (upF f).liveName = f.liveName) (hws : ∀ f, (upF f).workspace = f.workspace)
    (hcols : (upF file).blobId = input.blobId ∧ (upF file).size = input.logicalSize ∧
      (upF file).mimeType = input.mimeType)
    {w : WorkspaceResourceScope} (hw : file.workspace = some w)
    (hpaid : W.counts → δ input.blobId ≠ 0)
    (hsize : W.accounts → ∀ b, s.blobs.get input.blobId = some b → b.size = input.logicalSize) :
    Underway W s₀ { appended s hist input with
        files := s.files.updateRows (fun f => decide (f.id = file.id)) upF hupF } P
      (δ - oneRef input.blobId) (ε - bytesOn w input.logicalSize) := by
  obtain ⟨hblob, hlen, hmime⟩ := hcols
  have hmkR : ∀ n, (nextRevision hist input n).id = n := fun _ => rfl
  have hupH : ∀ x, (withHead s.revisions.next (hist.nextSequence + 1) x).id = x.id := fun _ => rfl
  refine ⟨?_, fun hB => ?_, fun hA => ?_, h.since.trans ⟨kept_updateFile _ hupF hws, .refl _, .refl _⟩⟩
  · exact h.ledger.append hfile hh hhf hmkR ⟨rfl, rfl, rfl, rfl⟩ hupF (hname file)
      ⟨congrArg some hblob.symm, hlen.symm, congrArg some hmime.symm⟩ hupH ⟨rfl, rfl, rfl⟩
  · exact (h.balanced hB).insert hmkR rfl rfl (hpaid hB)
  · have acc := h.accounts hA
    refine ⟨?_, ?_, acc.genuine, acc.floors⟩
    · intro x u hu
      have hused : u.storageUsed = _ := acc.exact x u hu
      rw [hused, accounted_less hw, Pi.sub_apply]
      congr 1
      exact (usedBy_append hfile hh hhf hmkR rfl rfl hupF hws hupH fun _ => rfl).symm
    · intro r hr hret k b hk hb
      have hmem : r ∈ (s.revisions.insert _ hmkR).rows := hr
      rcases SerialTable.mem_insert.mp hmem with hr | rfl
      · exact acc.sized r hr hret k b hk hb
      · obtain rfl : input.blobId = k := Option.some.inj hk
        exact hsize hA b hb

/-- **A tombstone** leaves a reference and its bytes to be given back. -/
theorem tombstone (h : Underway W s₀ s P δ ε) {v : FileRevision} {u : Unit}
    (htomb : tombstone v s = .ok (u, s')) (hv : v ∈ s.revisions.rows) (hvret : v.retired = false)
    {hist : FileRevisionHistory} (hh : hist ∈ s.histories.rows) (hvh : v.historyId = hist.id)
    (hcur : hist.currentRevisionId ≠ some v.id) {k : ℕ} (hk : v.blobId = some k)
    {w : WorkspaceResourceScope} (hw : W.accounts → workspaceOf s.files s.histories v = some w) :
    Underway W s₀ s' P (δ + oneRef k) (ε + bytesOn w v.logicalSize) := by
  have hrest : s'.blobs = s.blobs ∧ s'.files = s.files ∧ s'.usage = s.usage ∧ s'.floorsTaken = s.floorsTaken := by
    cases htomb
    exact ⟨rfl, rfl, rfl, rfl⟩
  obtain ⟨hblobs, hfiles, husage, hfloors⟩ := hrest
  refine ⟨h.ledger.tombstone htomb hv hvret hh hvh hcur, fun hB => ?_, fun hA => ?_, ?_⟩
  · rw [hblobs]
    refine (h.balanced hB).drop ?_ (refs_tombstone htomb hv hvret hk)
    intro j
    unfold oneRef
    split_ifs <;> omega
  · have acc := h.accounts hA
    refine ⟨?_, ?_, ?_, ?_⟩
    · intro x u hu
      rw [husage] at hu
      have hused := acc.exact x u hu
      rw [← usedBy_tombstone htomb hv hvret x, hw hA] at hused
      rw [hused, Pi.add_apply, bytesOn]
      by_cases hx : x = w
      · rw [if_pos hx, if_pos (by rw [hx])]
        omega
      · have hne : ¬ some w = some x := fun heq => hx (Option.some.inj heq).symm
        rw [if_neg hx, if_neg hne]
        omega
    · intro r hr hret j b hj hb
      rw [hblobs] at hb
      obtain ⟨y, hy, rfl⟩ := (mem_tombstone htomb).mp hr
      rw [entomb_retired, Bool.or_eq_false_iff, decide_eq_false_iff_not] at hret
      rw [entomb_of_ne hret.2] at hj ⊢
      split_ifs at hj ⊢
      all_goals exact acc.sized y hy hret.1 j b hj hb
    · rw [hblobs]
      exact acc.genuine
    · rw [hfloors]
      exact acc.floors
  · refine h.since.trans ⟨?_, ?_, ?_⟩
    · rw [hfiles]
      exact .refl _
    · rw [hblobs]
      exact .refl _
    · rw [husage]
      exact .refl _

end Underway

end AsterDrive.Db
