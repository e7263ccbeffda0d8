import AsterDrive.Workspace.Ledger
import Mathlib.Algebra.Order.Ring.Int

/-!
# Balance — reference counts and storage usage against the ledger

Inside a transaction the counters and the ledger disagree for a while: an increment comes before the
revision it pays for, a decrement after the revision is gone. `Balanced blobs revisions δ` says that
the row of blob `k` counts the live revisions that refer to `k`, plus `δ k`; a claimed row has none.
`Accounted … ε` says the same of a workspace's `storage_used`, up to `ε`. Every statement moves `δ`
or `ε` by a known amount, and a transaction ends where both are zero again.
-/

namespace AsterDrive.Db

open List Option SerialTable Table

/-! ### Reference counts -/

/-- One for a live revision of blob `k`. -/
def liveRef (k : ℕ) (r : FileRevision) : ℤ :=
  if r.retired = false ∧ r.blobId = some k then 1 else 0

/-- The number of live revisions that refer to blob `k`. -/
def refs (revisions : Revisions) (k : ℕ) : ℤ := revisions.total (liveRef k)

theorem liveRef_nonneg (k : ℕ) (r : FileRevision) : 0 ≤ liveRef k r := by
  unfold liveRef
  split_ifs <;> omega

theorem refs_nonneg (revisions : Revisions) (k : ℕ) : 0 ≤ refs revisions k := by
  refine sum_nonneg ?_
  intro x hx
  obtain ⟨r, _, rfl⟩ := List.mem_map.mp hx
  exact liveRef_nonneg k r

theorem refs_pos_of_mem {revisions : Revisions} {r : FileRevision} (hr : r ∈ revisions.rows)
    (hret : r.retired = false) {k : ℕ} (hk : r.blobId = some k) : 0 < refs revisions k := by
  unfold refs total
  have hone : liveRef k r = 1 := by simp [liveRef, hret, hk]
  have hle : liveRef k r ≤ (revisions.rows.map (liveRef k)).sum := by
    refine single_le_sum ?_ _ (List.mem_map_of_mem hr)
    intro x hx
    obtain ⟨y, _, rfl⟩ := List.mem_map.mp hx
    exact liveRef_nonneg k y
  omega

/-- Every count is exact up to `δ`, or the row is claimed and nothing refers to it. -/
structure Balanced (blobs : Blobs) (revisions : Revisions) (δ : ℕ → ℤ) : Prop where
  row : ∀ k b, blobs.get k = some b → b.refCount = refs revisions k + δ k ∨
    (b.refCount = blobCleanupClaimedRefCount ∧ refs revisions k = 0 ∧ δ k = 0)
  gone : ∀ k, blobs.get k = none → refs revisions k = 0 ∧ δ k = 0

namespace Balanced

variable {t t' : Blobs} {rs rs' : Revisions} {δ d : ℕ → ℤ}

theorem shift (hb : Balanced t rs δ) (hs : Shifted t t' d) : Balanced t' rs (δ + d) := by
  constructor
  · intro k b' hb'
    rw [Pi.add_apply]
    rcases hk : t.get k with _ | b
    · obtain ⟨_, hcount⟩ := hs.new k b' hk hb'
      obtain ⟨hrefs, hδ⟩ := hb.gone k hk
      left
      omega
    · have hget := hs.old k b hk
      rw [hb'] at hget
      have hcount : b'.refCount = b.refCount + d k := by rw [some.inj hget]
      rcases hb.row k b hk with hrow | ⟨hclaim, hrefs, hδ⟩
      · left
        omega
      · have hd : d k = 0 := by
          by_contra hd
          have hpos := hs.active k b hk hd
          unfold blobCleanupClaimedRefCount at hclaim
          omega
        right
        exact ⟨by omega, hrefs, by omega⟩
  · intro k hk
    have hd : d k = 0 := by
      by_contra hd
      obtain ⟨b, hb⟩ := hs.hit k hd
      rw [hk] at hb
      simp at hb
    have hold : t.get k = none := by
      rcases hkt : t.get k with _ | b
      · rfl
      · have hget := hs.old k b hkt
        rw [hk] at hget
        simp at hget
    obtain ⟨hrefs, hδ⟩ := hb.gone k hold
    rw [Pi.add_apply]
    exact ⟨hrefs, by omega⟩

theorem insert (hb : Balanced t rs δ) {mk : ℕ → FileRevision} (hmk : ∀ n, (mk n).id = n) {k : ℕ}
    (hk : (mk rs.next).blobId = some k) (hret : (mk rs.next).retired = false) (hδ : δ k ≠ 0) :
    Balanced t (rs.insert mk hmk) (δ - oneRef k) := by
  have hrefs : ∀ j, refs (rs.insert mk hmk) j = refs rs j + oneRef k j := by
    intro j
    unfold refs
    rw [total_insert]
    congr 1
    by_cases hj : j = k
    · simp [liveRef, oneRef, hk, hret, hj]
    · simp [liveRef, oneRef, hk, hj, Ne.symm hj]
  have hzero : ∀ j, δ j = 0 → oneRef k j = 0 := by
    intro j hj
    by_cases hjk : j = k
    · rw [hjk] at hj
      exact absurd hj hδ
    · simp [oneRef, hjk]
  constructor
  · intro j b hj
    rw [hrefs j, Pi.sub_apply]
    rcases hb.row j b hj with hrow | ⟨hclaim, hr, hd⟩
    · left
      omega
    · right
      have h0 := hzero j hd
      exact ⟨hclaim, by omega, by omega⟩
  · intro j hj
    obtain ⟨hr, hd⟩ := hb.gone j hj
    have h0 := hzero j hd
    rw [hrefs j, Pi.sub_apply]
    exact ⟨by omega, by omega⟩

theorem drop (hb : Balanced t rs δ) (hd : ∀ k, 0 ≤ d k) (hrefs : ∀ k, refs rs' k + d k = refs rs k) :
    Balanced t rs' (δ + d) := by
  constructor
  · intro k b hk
    have h1 := hrefs k
    have h2 := refs_nonneg rs' k
    have h3 := hd k
    rw [Pi.add_apply]
    rcases hb.row k b hk with hrow | ⟨hclaim, hr, hδ⟩
    · left
      omega
    · right
      exact ⟨hclaim, by omega, by omega⟩
  · intro k hk
    obtain ⟨hr, hδ⟩ := hb.gone k hk
    have h1 := hrefs k
    have h2 := refs_nonneg rs' k
    have h3 := hd k
    rw [Pi.add_apply]
    exact ⟨by omega, by omega⟩

/-- Decrements that were owed move the balance down; the floor at zero is not reached. -/
theorem decrement (hb : Balanced t rs δ) (hd : ∀ k, 0 ≤ d k ∧ d k ≤ δ k) (hget : ∀ k, t'.get k = (t.get k).map fun b =>
      if d k = 0 then b else { b with refCount := flooredDecrement (d k) b }) :
    Balanced t' rs (δ - d) := by
  constructor
  · intro k b' hb'
    obtain ⟨hd0, hdδ⟩ := hd k
    rw [hget k] at hb'
    obtain ⟨b, hk, hbb⟩ := map_eq_some_iff.mp hb'
    rw [Pi.sub_apply]
    by_cases hdk : d k = 0
    · rw [if_pos hdk] at hbb
      subst hbb
      rcases hb.row k b hk with hrow | ⟨hclaim, hr, hδ⟩
      · left
        omega
      · right
        exact ⟨hclaim, hr, by omega⟩
    · rw [if_neg hdk] at hbb
      subst hbb
      rcases hb.row k b hk with hrow | ⟨_, _, hδ⟩
      · left
        have hr := refs_nonneg rs k
        unfold flooredDecrement
        dsimp only
        omega
      · omega
  · intro k hk
    rw [hget k] at hk
    have hnone : t.get k = none := by
      rcases hkt : t.get k with _ | b
      · rfl
      · rw [hkt] at hk
        simp at hk
    obtain ⟨hr, hδ⟩ := hb.gone k hnone
    obtain ⟨hd0, hdδ⟩ := hd k
    rw [Pi.sub_apply]
    exact ⟨hr, by omega⟩

end Balanced

/-! ### Storage usage -/

/-- The workspace that a revision counts for: the one of its history's file. -/
def workspaceOf (files : Files) (histories : Histories) (r : FileRevision) :
    Option WorkspaceResourceScope :=
  (histories.get r.historyId).bind fun h => h.fileId.bind fun i => (files.get i).bind File.workspace

/-- The bytes of a live revision, if it counts for `w`. -/
def charge (files : Files) (histories : Histories) (w : WorkspaceResourceScope) (r : FileRevision) : ℤ :=
  if r.retired = false ∧ workspaceOf files histories r = some w then (r.logicalSize : ℤ) else 0

/-- The sum of `logical_size` over all unretired revisions of the workspace's files. -/
def usedBy (files : Files) (histories : Histories) (revisions : Revisions) (w : WorkspaceResourceScope) : ℤ :=
  revisions.total (charge files histories w)

theorem usedBy_nonneg (files : Files) (histories : Histories) (revisions : Revisions)
    (w : WorkspaceResourceScope) : 0 ≤ usedBy files histories revisions w := by
  refine sum_nonneg ?_
  intro x hx
  obtain ⟨r, _, rfl⟩ := List.mem_map.mp hx
  unfold charge
  split_ifs <;> omega

/-- `n` bytes on the account of `w`. -/
def bytesOn (w : WorkspaceResourceScope) (n : ℤ) : WorkspaceResourceScope → ℤ := fun x => if x = w then n else 0

/-- Every account is exact up to `ε`. -/
def Accounted (s : Db) (ε : WorkspaceResourceScope → ℤ) : Prop :=
  ∀ w u, s.usage.get w = some u → u.storageUsed = usedBy s.files s.histories s.revisions w + ε w

section Usage

variable {files files' : Files} {histories histories' : Histories} {revisions : Revisions}
  {pending : Set ℕ} {w : WorkspaceResourceScope}

theorem usedBy_congr (h : ∀ r ∈ revisions.rows, r.retired = false →
      workspaceOf files' histories' r = workspaceOf files histories r) :
    usedBy files' histories' revisions w = usedBy files histories revisions w := by
  refine total_congr ?_
  intro r hr
  unfold charge
  by_cases hret : r.retired = false
  · rw [h r hr hret]
  · rw [if_neg (fun hc => hret hc.1), if_neg (fun hc => hret hc.1)]

theorem Ledger.file_of_live (L : Ledger files histories revisions pending) {r : FileRevision}
    (hr : r ∈ revisions.rows) (hret : r.retired = false) :
    ∃ h f, histories.get r.historyId = some h ∧ h.fileId = some f.id ∧ files.get f.id = some f ∧
      workspaceOf files histories r = f.workspace := by
  obtain ⟨h, hh, hid, hlive⟩ := L.filed r hr
  obtain ⟨i, hi⟩ := hlive hret
  obtain ⟨_, f, hf, rfl⟩ := L.owned h hh i hi
  have hget : histories.get r.historyId = some h := get_eq_some_iff.mpr ⟨hh, hid⟩
  have hfget : files.get f.id = some f := get_of_mem hf
  refine ⟨h, f, hget, hi, hfget, ?_⟩
  unfold workspaceOf
  rw [hget, bind_some, hi, bind_some, hfget, bind_some]

theorem usedBy_insertFile (L : Ledger files histories revisions pending) {mk : ℕ → File} (hmk : ∀ n, (mk n).id = n) :
    usedBy (files.insert mk hmk) histories revisions w = usedBy files histories revisions w := by
  refine usedBy_congr ?_
  intro r hr hret
  obtain ⟨h, f, hh, hf, hget, hw⟩ := L.file_of_live hr hret
  have hlt := lt_next_of_get hget
  rw [hw]
  unfold workspaceOf
  rw [hh, bind_some, hf, bind_some, get_insert, if_neg (by omega), hget, bind_some]

theorem usedBy_enroll (L : Ledger files histories revisions pending) {file : File}
    (hfile : file ∈ files.rows) {mkH : ℕ → FileRevisionHistory} (hmkH : ∀ n, (mkH n).id = n)
    {mkR : ℕ → FileRevision} (hmkR : ∀ n, (mkR n).id = n)
    (hH : (mkH histories.next).fileId = some file.id)
    (hR : (mkR revisions.next).historyId = histories.next)
    (hRret : (mkR revisions.next).retired = false) :
    usedBy files (histories.insert mkH hmkH) (revisions.insert mkR hmkR) w = usedBy files histories revisions w +
        if file.workspace = some w then ((mkR revisions.next).logicalSize : ℤ) else 0 := by
  have hold : usedBy files (histories.insert mkH hmkH) revisions w =
      usedBy files histories revisions w := by
    refine usedBy_congr ?_
    intro r hr _
    have hlt := L.history_lt hr
    unfold workspaceOf
    rw [get_insert, if_neg (by omega)]
  have hnew : workspaceOf files (histories.insert mkH hmkH) (mkR revisions.next) =
      file.workspace := by
    unfold workspaceOf
    rw [hR, get_insert, if_pos rfl, bind_some, hH, bind_some, Table.get_of_mem hfile, bind_some]
  unfold usedBy
  rw [total_insert]
  congr 1
  unfold charge
  rw [hnew]
  by_cases hw : file.workspace = some w
  · rw [if_pos ⟨hRret, hw⟩, if_pos hw]
  · rw [if_neg (fun hc => hw hc.2), if_neg hw]

theorem usedBy_append {file : File} (hfile : file ∈ files.rows) {h : FileRevisionHistory} (hh : h ∈ histories.rows)
    (hhf : h.fileId = some file.id) {mkR : ℕ → FileRevision} (hmkR : ∀ n, (mkR n).id = n)
    (hR : (mkR revisions.next).historyId = h.id) (hRret : (mkR revisions.next).retired = false)
    {upF : File → File} (hupF : ∀ f, (upF f).id = f.id)
    (hws : ∀ f, (upF f).workspace = f.workspace)
    {upH : FileRevisionHistory → FileRevisionHistory} (hupH : ∀ x, (upH x).id = x.id)
    (hH : ∀ x, (upH x).fileId = x.fileId) :
    usedBy (files.updateRows (fun f => decide (f.id = file.id)) upF hupF)
      (histories.updateRows (fun x => decide (x.id = h.id)) upH hupH)
      (revisions.insert mkR hmkR) w =
      usedBy files histories revisions w +
        if file.workspace = some w then ((mkR revisions.next).logicalSize : ℤ) else 0 := by
  have hsame : ∀ r : FileRevision, workspaceOf (files.updateRows (fun f => decide (f.id = file.id)) upF hupF)
        (histories.updateRows (fun x => decide (x.id = h.id)) upH hupH) r =
      workspaceOf files histories r := by
    intro r
    unfold workspaceOf
    have hgetF : ∀ i, ((files.updateRows (fun f => decide (f.id = file.id)) upF hupF).get i).bind
        File.workspace = (files.get i).bind File.workspace := by
      intro i
      rw [get_updateRows]
      rcases files.get i with _ | f
      · rfl
      · rw [map_some, bind_some, bind_some]
        split_ifs
        · exact hws f
        · rfl
    rw [get_updateRows]
    rcases histories.get r.historyId with _ | x
    · rfl
    · rw [map_some, bind_some, bind_some]
      have hfid : (if decide (x.id = h.id) = true then upH x else x).fileId = x.fileId := by
        split_ifs
        · exact hH x
        · rfl
      rw [hfid]
      rcases x.fileId with _ | i
      · rfl
      · exact hgetF i
  have hnew : workspaceOf files histories (mkR revisions.next) = file.workspace := by
    unfold workspaceOf
    rw [hR, Table.get_of_mem hh, bind_some, hhf, bind_some, Table.get_of_mem hfile, bind_some]
  unfold usedBy
  rw [total_insert]
  congr 1
  · refine total_congr ?_
    intro r _
    unfold charge
    rw [hsame r]
  · unfold charge
    rw [hsame, hnew]
    by_cases hw : file.workspace = some w
    · rw [if_pos ⟨hRret, hw⟩, if_pos hw]
    · rw [if_neg (fun hc => hw hc.2), if_neg hw]

end Usage

/-! ### What retired revisions give back -/

section Retired

variable {s s' : Db} {u : Unit} {g : FileRevision → ℤ}

theorem total_tombstone {v : FileRevision} (h : tombstone v s = .ok (u, s')) (hv : v ∈ s.revisions.rows)
    (hpred : ∀ r p, g { r with predecessorRevisionId := p } = g r)
    (hret : ∀ r, r.retired = true → g r = 0) :
    s'.revisions.total g + g v = s.revisions.total g := by
  unfold tombstone at h
  cases h
  have hsum := total_of_get (get_of_mem hv) (g := g)
    (f := fun r => if r.id = v.id then 0 else g r) (fun x _ hx => if_neg hx)
  rw [if_pos rfl, add_zero] at hsum
  rw [← hsum]
  congr 1
  rw [total_updateRows, total_updateRows]
  refine total_congr ?_
  intro r _
  by_cases hid : r.id = v.id
  · simp only [decide_eq_true_eq, hid, if_true]
    split_ifs <;> exact hret _ rfl
  · simp only [decide_eq_true_eq, hid, if_false, hpred, ite_self]

theorem refs_tombstone {v : FileRevision} (h : tombstone v s = .ok (u, s'))
    (hv : v ∈ s.revisions.rows) (hvret : v.retired = false) {k : ℕ} (hk : v.blobId = some k)
    (j : ℕ) : refs s'.revisions j + oneRef k j = refs s.revisions j := by
  have hsum := total_tombstone (g := liveRef j) h hv (fun _ _ => rfl) (fun r hr => by simp [liveRef, hr])
  have hone : liveRef j v = oneRef k j := by
    by_cases hj : j = k
    · simp [liveRef, oneRef, hvret, hk, hj]
    · simp [liveRef, oneRef, hk, hj, Ne.symm hj]
  rw [hone] at hsum
  exact hsum

theorem usedBy_tombstone {v : FileRevision} (h : tombstone v s = .ok (u, s'))
    (hv : v ∈ s.revisions.rows) (hvret : v.retired = false) (w : WorkspaceResourceScope) :
    usedBy s'.files s'.histories s'.revisions w +
        (if workspaceOf s.files s.histories v = some w then (v.logicalSize : ℤ) else 0) =
      usedBy s.files s.histories s.revisions w := by
  have hsum := total_tombstone (g := charge s.files s.histories w) h hv (fun _ _ => rfl)
    (fun r hr => by simp [charge, hr])
  have hfiles : s'.files = s.files ∧ s'.histories = s.histories := by
    cases h
    exact ⟨rfl, rfl⟩
  unfold usedBy
  rw [hfiles.1, hfiles.2, ← hsum]
  congr 1
  unfold charge
  by_cases hw : workspaceOf s.files s.histories v = some w
  · rw [if_pos hw, if_pos ⟨hvret, hw⟩]
  · rw [if_neg hw, if_neg (fun hc => hw hc.2)]

/-- The live revisions that a retirement takes. -/
def retiredBy (s : Db) (fileIds : List ℕ) : List FileRevision :=
  s.revisions.rows.filter fun r => r.historyId ∈ historiesOf s fileIds ∧ r.retired = false

theorem total_retire {fileIds : List ℕ} {taken : List (ℕ × ℕ)}
    (h : retireHistories fileIds s = .ok (taken, s')) (hret : ∀ r, r.retired = true → g r = 0) :
    s'.revisions.total g + ((retiredBy s fileIds).map g).sum = s.revisions.total g := by
  unfold retireHistories at h
  cases h
  rw [← total_split s.revisions.toTable (fun r => decide (r.historyId ∈ historiesOf s fileIds ∧ r.retired = false)) g]
  congr 1
  rw [total_updateRows]
  refine total_congr ?_
  intro r _
  have hdead : g { r with blobId := none, retired := true } = 0 := hret _ rfl
  rw [hdead]
  rfl

theorem taken_eq {fileIds : List ℕ} {taken : List (ℕ × ℕ)} (h : retireHistories fileIds s = .ok (taken, s')) :
    taken = (retiredBy s fileIds).filterMap fun r => r.blobId.map fun k => (k, r.logicalSize) := by
  unfold retireHistories at h
  cases h
  rfl

end Retired

end AsterDrive.Db
