import Mathlib.Algebra.Order.Group.Nat
import AsterDrive.Workspace.Copies

/-!
# Purge — retiring whole files, and blob maintenance

A purge retires every live revision of its files at once and gives back, per blob, as many references
and bytes as it found. `Underway.retire` says what a retirement leaves outstanding, and the lemmas on
`countRefs` and `freedBytes` that the purge's two sums are that amount. Claims, their ends and the
reconciling write only ever touch a row that nothing refers to, or write the count that is there.
-/

namespace AsterDrive.Db

open Prod

open List Option Table SerialTable

variable {W : Watched} {s0 s s1 s' : Db} {P : Set ℕ} {δ : ℕ → ℤ} {ε : WorkspaceResourceScope → ℤ}

/-! ### The sums of a purge -/

theorem countRefs_ok (taken : List (ℕ × ℕ)) :
    Merged (countRefs taken) ∧ deltaOf (countRefs taken) = tally (taken.map fst) := by
  have main : ∀ (l : List (ℕ × ℕ)) (a : List (ℕ × ℤ)), Merged a →
      Merged (l.foldl (fun counts x => addDelta x.1 1 counts) a) ∧
        deltaOf (l.foldl (fun counts x => addDelta x.1 1 counts) a) = deltaOf a + tally (l.map fst) := by
    intro l
    induction l with
    | nil =>
      intro a ha
      refine ⟨ha, ?_⟩
      funext k
      simp [tally]
    | cons x l ih =>
      intro a ha
      obtain ⟨hm, hsum⟩ := ih (addDelta x.1 1 a) (merged_addDelta ha)
      rw [foldl_cons]
      refine ⟨hm, ?_⟩
      rw [hsum, map_cons, tally_cons]
      funext k
      simp only [Pi.add_apply, deltaOf_addDelta ha, oneRef]
      omega
  obtain ⟨hm, hsum⟩ := main taken [] List.Pairwise.nil
  refine ⟨hm, hsum.trans ?_⟩
  funext k
  simp [deltaOf]

theorem freedBytes_cons (x : ℕ × ℕ) (taken : List (ℕ × ℕ)) (k : ℕ) :
    freedBytes (x :: taken) k = (if x.1 = k then x.2 else 0) + freedBytes taken k := by
  unfold freedBytes
  by_cases hk : x.1 = k
  · simp [hk]
  · simp [hk]

variable {i : ℕ}

theorem sum_ite_of_nodup {K : List ℕ} (hK : K.Nodup) (hi : i ∈ K) (n : ℕ) :
    (K.map fun k => if i = k then n else 0).sum = n := by
  induction K with
  | nil => simp at hi
  | cons j K ih =>
    obtain ⟨hj, hK⟩ := nodup_cons.mp hK
    rw [map_cons, sum_cons]
    by_cases hij : i = j
    · have hzero : (K.map fun k => if i = k then n else 0).sum = 0 := by
        refine sum_eq_zero ?_
        intro x hx
        obtain ⟨k, hk, rfl⟩ := List.mem_map.mp hx
        rw [if_neg]
        rintro rfl
        exact hj (hij ▸ hk)
      rw [if_pos hij, hzero, add_zero]
    · rw [if_neg hij, zero_add]
      rcases mem_cons.mp hi with h | h
      · exact absurd h hij
      · exact ih hK h

variable {taken : List (ℕ × ℕ)}

theorem sum_freedBytes {K : List ℕ} (hK : K.Nodup)
    (hall : ∀ x ∈ taken, x.1 ∈ K) : (K.map (freedBytes taken)).sum = (taken.map snd).sum := by
  induction taken with
  | nil =>
    refine sum_eq_zero ?_
    intro x hx
    obtain ⟨k, _, rfl⟩ := List.mem_map.mp hx
    rfl
  | cons x taken ih =>
    have hsplit : K.map (freedBytes (x :: taken)) = K.map fun k => (if x.1 = k then x.2 else 0) + freedBytes taken k :=
      map_congr_left fun k _ => freedBytes_cons x taken k
    rw [hsplit, sum_map_add, sum_ite_of_nodup hK (hall x mem_cons_self),
      ih fun y hy => hall y (mem_cons_of_mem _ hy), map_cons, sum_cons]

/-! ### What a retirement leaves outstanding -/

theorem taken_of_live {l : List FileRevision} (hl : ∀ r ∈ l, r.retired = false ∧ r.blobId.isSome = true)
    (htaken : taken = l.filterMap fun r => r.blobId.map fun k => (k, r.logicalSize)) :
    (∀ k, (l.map (liveRef k)).sum = tally (taken.map fst) k) ∧
      (taken.map snd).sum = (l.map FileRevision.logicalSize).sum := by
  subst htaken
  induction l with
  | nil => exact ⟨fun _ => rfl, rfl⟩
  | cons r l ih =>
    obtain ⟨hrefs, hbytes⟩ := ih fun x hx => hl x (mem_cons_of_mem _ hx)
    obtain ⟨hret, hsome⟩ := hl r mem_cons_self
    obtain ⟨j, hj⟩ := isSome_iff_exists.mp hsome
    have hcons : ((r :: l).filterMap fun r => r.blobId.map fun k => (k, r.logicalSize)) =
        (j, r.logicalSize) :: l.filterMap fun r => r.blobId.map fun k => (k, r.logicalSize) := by
      rw [filterMap_cons, hj]
      rfl
    rw [hcons]
    constructor
    · intro k
      rw [map_cons, sum_cons, hrefs k, map_cons, tally_cons, Pi.add_apply, add_comm]
      congr 1
      by_cases hk : k = j
      · simp [liveRef, oneRef, hret, hj, hk]
      · simp [liveRef, oneRef, hj, hk, Ne.symm hk]
    · rw [map_cons, sum_cons, map_cons, sum_cons, hbytes]

variable {fileIds : List ℕ} {u : Unit}

theorem retired_fields
    (hret : retireHistories fileIds s = .ok (taken, s1)) (hdel : deleteFiles fileIds s1 = .ok (u, s')) :
    s'.blobs = s.blobs ∧ s'.usage = s.usage ∧ s'.floorsTaken = s.floorsTaken ∧ s'.revisions = s1.revisions ∧
      s'.files = s.files.deleteRows fun f => decide (f.id ∈ fileIds) := by
  unfold retireHistories at hret
  cases hret
  cases hdel
  exact ⟨rfl, rfl, rfl, rfl, rfl⟩

theorem workspaceOf_retire (L : Ledger s.files s.histories s.revisions P)
    (hret : retireHistories fileIds s = .ok (taken, s1)) (hdel : deleteFiles fileIds s1 = .ok (u, s'))
    {r : FileRevision} (hr : r ∈ s'.revisions.rows) (hlive : r.retired = false) :
    r ∈ s.revisions.rows ∧ workspaceOf s'.files s'.histories r = workspaceOf s.files s.histories r := by
  unfold retireHistories at hret
  cases hret
  cases hdel
  change r ∈ (s.revisions.updateRows (fun r => decide (r.historyId ∈ historiesOf s fileIds ∧ r.retired = false))
    (fun r => { r with blobId := none, retired := true }) fun _ => rfl).rows at hr
  obtain ⟨y, hy, hyr⟩ := mem_updateRows.mp hr
  have hout : ¬ (y.historyId ∈ historiesOf s fileIds ∧ y.retired = false) := by
    intro hin
    rw [if_pos (decide_eq_true hin)] at hyr
    rw [← hyr] at hlive
    simp at hlive
  rw [if_neg (by simpa using hout)] at hyr
  subst hyr
  have hhist : y.historyId ∉ historiesOf s fileIds := fun hin => hout ⟨hin, hlive⟩
  obtain ⟨h, f, hh, hhf, hf, _⟩ := L.file_of_live hy hlive
  have hid : h.id = y.historyId := key_of_get hh
  have hfile : f.id ∉ fileIds := by
    intro hin
    exact hhist (hid ▸ (mem_historiesOf (mem_of_get hh)).mpr ⟨f.id, hin, hhf⟩)
  refine ⟨hy, ?_⟩
  unfold workspaceOf
  change (((s.histories.updateRows (fun h => decide (h.id ∈ historiesOf s fileIds))
    (fun h => { h with fileId := none, currentRevisionId := none, retired := true })
    fun _ => rfl).get y.historyId).bind _) = _
  rw [get_updateRows, hh, map_some, if_neg (by simpa [hid] using hhist),
    bind_some, bind_some, hhf, bind_some, bind_some, hf]
  have hkeep : (s.files.deleteRows fun f => decide (f.id ∈ fileIds)).toTable.get f.id = some f := by
    refine get_eq_some_iff.mpr ⟨?_, rfl⟩
    exact mem_deleteWhere.mpr ⟨mem_of_get hf, decide_eq_false hfile⟩
  rw [hkeep]

variable {w : WorkspaceResourceScope}

theorem charge_retired (L : Ledger s.files s.histories s.revisions P)
    (hw : ∀ f ∈ s.files.rows, f.id ∈ fileIds → f.workspace = some w)
    (x : WorkspaceResourceScope) :
    ((retiredBy s fileIds).map (charge s.files s.histories x)).sum =
      bytesOn w (((retiredBy s fileIds).map FileRevision.logicalSize).sum : ℕ) x := by
  have hone : ∀ r ∈ retiredBy s fileIds, charge s.files s.histories x r = bytesOn w r.logicalSize x := by
    intro r hr
    obtain ⟨hr, hp⟩ := mem_filter.mp hr
    rw [decide_eq_true_eq] at hp
    obtain ⟨hist, f, hh, hhf, hf, hws⟩ := L.file_of_live hr hp.2
    have hid : hist.id = r.historyId := key_of_get hh
    obtain ⟨i, hi, hhi⟩ := (mem_historiesOf (mem_of_get hh)).mp (hid ▸ hp.1)
    obtain rfl : f.id = i := some.inj (hhf.symm.trans hhi)
    rw [hw f (mem_of_get hf) hi] at hws
    unfold charge bytesOn
    by_cases hx : x = w
    · rw [if_pos ⟨hp.2, hx ▸ hws⟩, if_pos hx]
    · have hne : ¬ (r.retired = false ∧ workspaceOf s.files s.histories r = some x) := by
        rintro ⟨_, heq⟩
        exact hx (some.inj (heq.symm.trans hws))
      rw [if_neg hne, if_neg hx]
  rw [map_congr_left hone]
  induction retiredBy s fileIds with
  | nil => simp [bytesOn]
  | cons r l ih =>
    rw [map_cons, sum_cons, ih, map_cons, sum_cons]
    unfold bytesOn
    split_ifs
    · push_cast
      rfl
    · rfl

/-- **A retirement** of files of one workspace. -/
theorem Underway.retire (h : Underway W s0 s P δ ε) (hret : retireHistories fileIds s = .ok (taken, s1))
    (hdel : deleteFiles fileIds s1 = .ok (u, s'))
    (hw : ∀ f ∈ s.files.rows, f.id ∈ fileIds → f.workspace = some w) :
    Underway W s0 s' P (δ + tally (taken.map fst)) (ε + bytesOn w ((taken.map snd).sum : ℕ)) := by
  have L := h.ledger
  have hlive : ∀ r ∈ retiredBy s fileIds, r.retired = false ∧ r.blobId.isSome = true := by
    intro r hr
    obtain ⟨hr, hp⟩ := mem_filter.mp hr
    rw [decide_eq_true_eq] at hp
    have hcontent := L.content r hr
    rw [hp.2] at hcontent
    refine ⟨hp.2, ?_⟩
    rw [← not_isNone, ← hcontent]
    rfl
  obtain ⟨hrefs, hbytes⟩ := taken_of_live hlive (taken_eq hret)
  obtain ⟨hblobs, husage, hfloors, hrevs, hfiles⟩ := retired_fields hret hdel
  refine ⟨L.retire hret hdel, fun hB => ?_, fun hA => ?_, h.since.trans ⟨?_, ?_, ?_⟩⟩
  · rw [hblobs]
    refine (h.balanced hB).drop (fun k => Int.natCast_nonneg _) ?_
    intro k
    rw [hrevs, ← hrefs k]
    exact total_retire (g := liveRef k) hret fun r hr => by simp [liveRef, hr]
  · have acc := h.accounts hA
    refine ⟨?_, ?_, ?_, ?_⟩
    · intro x v hv
      rw [husage] at hv
      -- the survivors count as before, the others for `w`
      have hsame : usedBy s'.files s'.histories s'.revisions x = usedBy s.files s.histories s'.revisions x :=
        usedBy_congr fun r hr hl => (workspaceOf_retire L hret hdel hr hl).2
      have htotal := total_retire (g := Db.charge s.files s.histories x) hret fun r hr => by simp [Db.charge, hr]
      have hgone := charge_retired L hw x
      rw [← hbytes] at hgone
      have hold := acc.exact x v hv
      rw [hold, Pi.add_apply, hsame, ← hgone]
      have htotal' : usedBy s.files s.histories s'.revisions x +
          ((retiredBy s fileIds).map (Db.charge s.files s.histories x)).sum =
          usedBy s.files s.histories s.revisions x := by
        rw [hrevs]
        exact htotal
      omega
    · intro r hr hl k b hk hb
      rw [hblobs] at hb
      exact acc.sized r (workspaceOf_retire L hret hdel hr hl).1 hl k b hk hb
    · rw [hblobs]
      exact acc.genuine
    · rw [hfloors]
      exact acc.floors
  · rw [hfiles]
    refine ⟨le_refl _, ?_⟩
    intro f hf _
    exact ⟨f, (mem_deleteWhere.mp hf).1, rfl, rfl⟩
  · rw [hblobs]
    exact .refl _
  · rw [husage]
    exact .refl _

/-! ### The purge -/

theorem totalDelta_filter (m : List (ℕ × ℤ)) (q : ℕ → Bool) (k : ℕ) :
    totalDelta (m.filter fun e => q e.1) k = if q k then totalDelta m k else 0 := by
  induction m with
  | nil =>
    split_ifs <;> rfl
  | cons e m ih =>
    rw [filter_cons, totalDelta_cons]
    by_cases hq : q e.1 = true
    · rw [if_pos hq, totalDelta_cons, ih]
      by_cases hk : e.1 = k
      · rw [← hk, if_pos hq, if_pos hq]
      · rw [if_neg hk, zero_add, zero_add]
    · rw [if_neg hq, ih]
      by_cases hk : e.1 = k
      · rw [← hk, if_neg hq, if_neg hq]
      · rw [if_neg hk, zero_add]

variable {scope : WorkspaceResourceScope} {files : List File}

theorem ensureAllInScope_ok (hok : ensureAllInScope scope files s = .ok (u, s')) :
    s' = s ∧ ∀ f ∈ files, f.workspace = some scope := by
  obtain ⟨hall, rfl⟩ := check_ok.mp hok
  exact ⟨rfl, fun f hf => workspace_of_ensure (forM_ok_iff.mp hall f hf)⟩

/-- The rows a purge finds: the requested ones, without those that were restored from the trash meanwhile. -/
def purgeable (s : Db) (files : List File) : List File :=
  s.files.rows.filter fun f =>
    (∃ x ∈ files, x.id = f.id) ∧ ((∃ x ∈ files, x.id = f.id ∧ x.deletedAt.isSome = true) → f.deletedAt.isSome = true)

/-- The decrements of a purge: of the rows that are there. -/
def decrementsOf (s : Db) (taken : List (ℕ × ℕ)) : List (ℕ × ℤ) :=
  (countRefs taken).filter fun e => (s.blobs.get e.1).isSome

/-- What the decremented rows held. -/
def totalFreed (s : Db) (taken : List (ℕ × ℕ)) : ℕ := ((decrementsOf s taken).map fun e => freedBytes taken e.1).sum

section Sums

variable {taken : List (ℕ × ℕ)}

/-- Where every blob that lost a revision still has its row, the decrements are the lost references. -/
theorem totalDelta_decrementsOf (hrow : ∀ k, tally (taken.map fst) k ≠ 0 → (s.blobs.get k).isSome = true) :
    totalDelta (decrementsOf s taken) = tally (taken.map fst) := by
  obtain ⟨hmerged, hdelta⟩ := countRefs_ok taken
  funext k
  unfold decrementsOf
  rw [totalDelta_filter _ fun k => (s.blobs.get k).isSome, totalDelta_of_merged hmerged, hdelta]
  by_cases hk : tally (taken.map fst) k = 0
  · rw [hk, ite_self]
  · rw [if_pos (hrow k hk)]

theorem totalFreed_eq (hrow : ∀ k, tally (taken.map fst) k ≠ 0 → (s.blobs.get k).isSome = true) :
    totalFreed s taken = (taken.map snd).sum := by
  obtain ⟨hmerged, hdelta⟩ := countRefs_ok taken
  have hkeys : (((countRefs taken).filter fun e => (s.blobs.get e.1).isSome).map fst).Nodup := by
    have hp := hmerged.filter fun e => (s.blobs.get e.1).isSome
    rw [List.Nodup, pairwise_map]
    exact hp.imp fun hab => Nat.ne_of_lt hab
  rw [← sum_freedBytes hkeys, List.map_map]
  · rfl
  · intro x hx
    have hne : tally (taken.map fst) x.1 ≠ 0 := by
      have hpos := count_pos_iff.mpr (List.mem_map_of_mem (f := fst) hx)
      unfold tally
      omega
    have hmem : x.1 ∈ (countRefs taken).map fst := by
      by_contra hnot
      rw [← hdelta, deltaOf_of_notMem hnot] at hne
      exact hne rfl
    obtain ⟨e, he, hex⟩ := List.mem_map.mp hmem
    refine List.mem_map.mpr ⟨e, mem_filter.mpr ⟨he, ?_⟩, hex⟩
    rw [hex]
    exact hrow x.1 hne

end Sums

variable {ids : List ℕ}

/-- **What a purge that commits has done**, statement by statement. -/
theorem purgeFilesOn_ok (hne : files.isEmpty = false) (hok : purgeFilesOn scope files s = .ok (ids, s')) :
    ids = (purgeable s files).map File.id ∧ (∀ f ∈ purgeable s files, f.workspace = some scope) ∧
      ∃ taken s1 s2 blobs, retireHistories ids s = .ok (taken, s1) ∧ deleteFiles ids s1 = .ok ((), s2) ∧
        decrementBlobRefCountsBy s2.blobs (decrementsOf s2 taken) = .ok blobs ∧
        updateStorageUsedFor scope (-(totalFreed s2 taken : ℤ)) { s2 with blobs } = .ok ((), s') := by
  unfold purgeFilesOn at hok
  rw [if_neg (by simp [hne])] at hok
  obtain ⟨_, s1, hens, hok1⟩ := bind_txn hok
  obtain ⟨rfl, _⟩ := ensureAllInScope_ok hens
  have hok2 := bind_get_ok.mp hok1
  obtain ⟨_, s3, hens2, hok3⟩ := bind_txn hok2
  obtain ⟨rfl, hscope⟩ := ensureAllInScope_ok hens2
  obtain ⟨taken, s4, hret, hok4⟩ := bind_txn hok3
  obtain ⟨_, s5, hdel, hok5⟩ := bind_txn hok4
  have hok6 := bind_get_ok.mp hok5
  obtain ⟨_, s7, hdec, hok7⟩ := bind_txn hok6
  obtain ⟨_, s8, hcharge, hok8⟩ := bind_txn hok7
  obtain ⟨hids, rfl⟩ := pure_txn_ok.mp hok8
  obtain ⟨t', ht, rfl⟩ := onBlobs_ok hdec
  obtain ⟨x, hdecr, hxt⟩ := map_ok_iff.mp ht
  obtain ⟨_, rfl⟩ := Prod.mk.inj hxt
  subst hids
  exact ⟨rfl, hscope, taken, s4, s5, x, hret, hdel, hdecr, hcharge⟩

theorem purgeFilesOn_cases (hok : purgeFilesOn scope files s = .ok (ids, s')) : (ids = [] ∧ s' = s) ∨
      ids = (purgeable s files).map File.id ∧ (∀ f ∈ purgeable s files, f.workspace = some scope) ∧
        ∃ taken s1 s2 blobs usage floored n, retireHistories ids s = .ok (taken, s1) ∧ deleteFiles ids s1 = .ok ((), s2) ∧
          decrementBlobRefCountsBy s2.blobs (decrementsOf s2 taken) = .ok blobs ∧
          updateStorageUsed { s2 with blobs }.usage scope (-(totalFreed s2 taken : ℤ)) = .ok (usage, floored) ∧
          s' = { s2 with blobs, usage, floorsTaken := n } := by
  cases hempty : files.isEmpty with
  | true =>
    unfold purgeFilesOn at hok
    rw [if_pos hempty] at hok
    cases hok
    exact .inl ⟨rfl, rfl⟩
  | false =>
    obtain ⟨hids, hscope, taken, s1, s2, blobs, hret, hdel, hdecr, hcharge⟩ := purgeFilesOn_ok hempty hok
    unfold updateStorageUsedFor at hcharge
    split at hcharge
    · cases hcharge
    · rename_i usage floored hupdate
      cases hcharge
      exact .inr ⟨hids, hscope, taken, s1, s2, blobs, usage, floored, _, hret, hdel, hdecr, hupdate, rfl⟩

theorem purge_keeps (h : Consistent W s)
    (hok : purgeFilesOn scope files s = .ok (ids, s')) : Underway W s s' ∅ 0 0 := by
  cases hempty : files.isEmpty with
  | true =>
    unfold purgeFilesOn at hok
    rw [if_pos hempty] at hok
    cases hok
    exact h
  | false =>
  obtain ⟨rfl, hscope, taken, s4, s5, blobs, hret, hdel, hdecr, hcharge⟩ := purgeFilesOn_ok hempty hok
  have h1 := h.retire (w := scope) hret hdel (by
    intro f hf hin
    obtain ⟨x, hx, hxf⟩ := List.mem_map.mp hin
    have hxrow : x ∈ s.files.rows := (mem_filter.mp hx).1
    rw [← eq_of_key hxrow hf hxf]
    exact hscope x hx)
  rw [zero_add, zero_add] at h1
  -- every blob that lost a revision still has its row
  have hrow : W.counts → ∀ k, tally (taken.map fst) k ≠ 0 → (s5.blobs.get k).isSome = true := by
    intro hB k hk
    rcases hnone : s5.blobs.get k with _ | b
    · exact absurd ((h1.balanced hB).gone k hnone).2 hk
    · rfl
  obtain ⟨p, g, rfl, hgets⟩ := decrementBy_ok hdecr
  have h2 := h1.decrement (by
    intro hB k
    rw [totalDelta_decrementsOf (hrow hB)]
    exact ⟨Int.natCast_nonneg _, le_refl _⟩) hgets
  refine (h2.charge hcharge fun hA => .inr ?_).settle (fun hB => ?_) (fun hA => ?_)
  · rw [totalFreed_eq (hrow (W.needs hA))]
    simp [bytesOn]
  · rw [totalDelta_decrementsOf (hrow hB)]
    exact sub_self _
  · rw [totalFreed_eq (hrow (W.needs hA))]
    funext w
    simp only [Pi.add_apply, Pi.zero_apply, bytesOn]
    split_ifs <;> omega

/-- **The files that a purge removes** are of its workspace, and no blob row is new. -/
theorem purge_removes (hok : purgeFilesOn scope files s = .ok (ids, s')) :
    s'.files.rows = s.files.rows.filter (fun f => f.id ∉ ids) ∧
      (∀ f ∈ s.files.rows, f.id ∈ ids → (∃ x ∈ files, x.id = f.id) ∧ f.workspace = some scope) ∧
        s'.blobs.next = s.blobs.next := by
  rcases purgeFilesOn_cases hok with
    ⟨rfl, rfl⟩ | ⟨hids, hscope, taken, s1, s2, blobs, _, _, _, hret, hdel, hdecr, _, rfl⟩
  · refine ⟨?_, fun f _ hin => absurd hin not_mem_nil, rfl⟩
    simp
  obtain ⟨hblobs, _, _, _, hfiles⟩ := retired_fields hret hdel
  obtain ⟨p, g, rfl, _⟩ := decrementBy_ok hdecr
  refine ⟨?_, fun f hf hin => ?_, ?_⟩
  · show s2.files.rows = _
    rw [hfiles]
    refine filter_congr fun f _ => ?_
    simp
  · rw [hids] at hin
    obtain ⟨x, hx, hid⟩ := List.mem_map.mp hin
    obtain ⟨hrow, hp⟩ := mem_filter.mp hx
    obtain rfl := eq_of_key hrow hf hid
    rw [decide_eq_true_eq] at hp
    exact ⟨hp.1, hscope x hx⟩
  · show (updateRefCounts s2.blobs p g).next = _
    rw [hblobs]
    rfl

/-! ### A purge that cannot fail -/

theorem deltaOf_of_mem {m : List (ℕ × ℤ)} {e : ℕ × ℤ} (hm : Merged m) (he : e ∈ m) : deltaOf m e.1 = e.2 := by
  induction m with
  | nil => cases he
  | cons x m ih =>
    obtain ⟨hhead, htail⟩ := pairwise_cons.mp hm
    rw [deltaOf_cons]
    rcases mem_cons.mp he with rfl | he
    · rw [if_pos rfl]
    · have hlt := hhead e he
      rw [if_neg (by omega)]
      exact ih htail he

theorem decrementsOf_nonneg : ∀ e ∈ decrementsOf s taken, 0 ≤ e.2 := by
  obtain ⟨hmerged, hdelta⟩ := countRefs_ok taken
  intro e he
  have hin : e ∈ countRefs taken := (mem_filter.mp he).1
  have hvalue : e.2 = tally (taken.map fst) e.1 := by
    rw [← hdelta]
    exact (deltaOf_of_mem hmerged hin).symm
  rw [hvalue]
  exact Int.natCast_nonneg _

theorem totalDelta_nonneg {l : List (ℕ × ℤ)} (h : ∀ e ∈ l, 0 ≤ e.2) (k : ℕ) : 0 ≤ totalDelta l k := by
  refine sum_nonneg fun d hd => ?_
  obtain ⟨x, hx, rfl⟩ := List.mem_map.mp hd
  split_ifs
  · exact h x hx
  · exact le_refl _

/-- Deltas that are not negative and add up to no more than a counter holds are merged. -/
theorem normalize_of_fits {deltas : List (ℕ × ℤ)} (context : String) (hpos : ∀ e ∈ deltas, 0 ≤ e.2)
    (hfits : ∀ k, totalDelta deltas k ≤ i32Max) : ∃ m, normalizeBlobRefCountDeltas deltas context = .ok m := by
  have main : ∀ (l : List (ℕ × ℤ)) (a : List (ℕ × ℤ)), Merged a → (∀ e ∈ l, 0 ≤ e.2) →
      (∀ k, deltaOf a k + totalDelta l k ≤ i32Max) → ∃ m, l.foldlM (mergeDelta context) a = .ok m := by
    intro l
    induction l with
    | nil =>
      intro a _ _ _
      exact ⟨a, rfl⟩
    | cons e l ih =>
      intro a ha hl hsum
      have he : 0 ≤ e.2 := hl e mem_cons_self
      have hrest : ∀ x ∈ l, 0 ≤ x.2 := fun x hx => hl x (mem_cons_of_mem _ hx)
      rw [foldlM_cons]
      unfold mergeDelta
      rw [if_neg (by omega)]
      by_cases hzero : e.2 = 0
      · rw [if_pos hzero]
        refine ih a ha hrest fun k => ?_
        have hk := hsum k
        rw [totalDelta_cons, hzero, ite_self, zero_add] at hk
        exact hk
      · have hbound := hsum e.1
        rw [totalDelta_cons, if_pos rfl] at hbound
        have htail := totalDelta_nonneg hrest e.1
        rw [if_neg hzero, if_neg (by omega)]
        refine ih _ (merged_addDelta ha) hrest fun k => ?_
        have hk := hsum k
        rw [totalDelta_cons] at hk
        rw [deltaOf_addDelta ha]
        by_cases hkey : k = e.1
        · rw [if_pos hkey.symm] at hk
          omega
        · rw [if_neg (Ne.symm hkey)] at hk
          omega
  refine main deltas [] List.Pairwise.nil hpos fun k => ?_
  have hk := hfits k
  simpa [deltaOf] using hk

theorem onBlobs_of {α : Type} {f : Blobs → Except AsterError (α × Blobs)} {a : α} {blobs : Blobs}
    (h : f s.blobs = .ok (a, blobs)) : onBlobs f s = .ok (a, { s with blobs }) := by
  unfold onBlobs
  rw [h]

/-- The file has an unretired revision that is not empty. -/
def frees (s : Db) (fileId : ℕ) : Prop :=
  ∃ h ∈ s.histories.rows, h.fileId = some fileId ∧
    ∃ r ∈ s.revisions.rows, r.historyId = h.id ∧ r.retired = false ∧ 0 < r.logicalSize

theorem live_retired {s2 : Db} {P : FileRevision → Prop}
    (hret : retireHistories ids s = .ok (taken, s1)) (hdel : deleteFiles ids s1 = .ok ((), s2)) :
    (∃ h ∈ s2.histories.rows, h.fileId = some i ∧
      ∃ r ∈ s2.revisions.rows, r.historyId = h.id ∧ r.retired = false ∧ P r) ↔
    (∃ h ∈ s.histories.rows, h.fileId = some i ∧
      ∃ r ∈ s.revisions.rows, r.historyId = h.id ∧ r.retired = false ∧ P r) ∧ i ∉ ids := by
  unfold retireHistories at hret
  cases hret
  cases hdel
  change (∃ h ∈ (s.histories.updateRows (fun h => decide (h.id ∈ historiesOf s ids)) _ _).rows, _ ∧
    ∃ r ∈ (s.revisions.updateRows (fun r => decide (r.historyId ∈ historiesOf s ids ∧ r.retired = false)) _ _).rows,
      _) ↔ _
  constructor
  · rintro ⟨h', hh', hf, r', hr', hrh, hlive, hp⟩
    obtain ⟨h, hh, rfl⟩ := mem_updateRows.mp hh'
    by_cases hin : h.id ∈ historiesOf s ids
    · rw [if_pos (by simpa using hin)] at hf
      cases hf
    rw [if_neg (by simpa using hin)] at hf hrh
    obtain ⟨r, hr, rfl⟩ := mem_updateRows.mp hr'
    have hkeep : ¬ (r.historyId ∈ historiesOf s ids ∧ r.retired = false) := by
      intro hboth
      rw [if_pos (by simpa using hboth)] at hlive
      cases hlive
    rw [if_neg (by simpa using hkeep)] at hrh hlive hp
    refine ⟨⟨h, hh, hf, r, hr, hrh, hlive, hp⟩, fun hid => ?_⟩
    exact hin ((mem_historiesOf hh).mpr ⟨i, hid, hf⟩)
  · rintro ⟨⟨h, hh, hf, r, hr, hrh, hlive, hp⟩, hid⟩
    have hout : h.id ∉ historiesOf s ids := by
      intro hin
      obtain ⟨j, hj, hhj⟩ := (mem_historiesOf hh).mp hin
      obtain rfl := some.inj (hf.symm.trans hhj)
      exact hid hj
    have hkeep : ¬ (r.historyId ∈ historiesOf s ids ∧ r.retired = false) := fun hboth => hout (hrh ▸ hboth.1)
    refine ⟨h, mem_updateRows.mpr ⟨h, hh, if_neg (by simpa using hout)⟩, hf, r, ?_, hrh, hlive, hp⟩
    exact mem_updateRows.mpr ⟨r, hr, if_neg (by simpa using hkeep)⟩

/-- The account can be lowered, even by nothing. -/
def StorageUsage.lowers (u : StorageUsage) : Prop :=
  u.storageQuota = 0 ∨ (u.storageUsed ≤ u.storageQuota ∧ 0 ≤ u.storageQuota)

theorem updateStorageUsed_lowers {t : Usage} {u : StorageUsage} {delta : ℤ}
    (hu : t.get scope = some u) (hdelta : delta ≤ 0) (hlowers : u.lowers ∨ delta < 0) :
    ∃ r, updateStorageUsed t scope delta = .ok r := by
  have haccepts : acceptsDelta scope delta u = true := by
    unfold acceptsDelta
    rw [decide_eq_true_eq]
    refine ⟨key_of_get hu, fun hzero => ?_⟩
    rcases hlowers.resolve_right (by omega) with h | h
    · exact .inl h
    · exact .inr (by omega)
  have haffected : t.affected (acceptsDelta scope delta) ≠ 0 := by
    unfold affected
    have hpos : 0 < t.rows.countP (acceptsDelta scope delta) := countP_pos_iff.mpr ⟨u, mem_of_get hu, haccepts⟩
    omega
  unfold updateStorageUsed
  rw [if_neg haffected]
  exact ⟨_, rfl⟩

/-- **A purge succeeds**, if the files are of the workspace, no counter of a row is above its column, and the account
can be lowered, by nothing or by what a file frees. -/
theorem purge_succeeds (h : Consistent W s) (hcounts : W.counts)
    {u : StorageUsage} (hfits : ∀ b ∈ s.blobs.rows, b.refCount ≤ i32Max)
    (hfiles : ∀ f ∈ files, f.workspace = some scope) (hcurrent : ∀ f ∈ purgeable s files, f.workspace = some scope)
    (husage : s.usage.get scope = some u) (hlowers : u.lowers ∨ ∃ f ∈ purgeable s files, frees s f.id) :
    ∃ ids s', purgeFilesOn scope files s = .ok (ids, s') := by
  have hensure : ∀ l : List File, (∀ f ∈ l, f.workspace = some scope) → ∀ s, ensureAllInScope scope l s = .ok ((), s) := by
    intro l hl s
    exact check_ok.mpr ⟨forM_ok_iff.mpr fun f hf => ensure_of_workspace (hl f hf), rfl⟩
  cases hempty : files.isEmpty with
  | true =>
    unfold purgeFilesOn
    rw [if_pos hempty]
    exact ⟨_, _, rfl⟩
  | false =>
  obtain ⟨taken, s1, hret⟩ : ∃ taken s1, retireHistories ((purgeable s files).map File.id) s = .ok (taken, s1) :=
    ⟨_, _, rfl⟩
  obtain ⟨s2, hdel⟩ : ∃ s2, deleteFiles ((purgeable s files).map File.id) s1 = .ok ((), s2) := ⟨_, rfl⟩
  have h1 := h.retire (w := scope) hret hdel (by
    intro f hf hin
    obtain ⟨x, hx, hxf⟩ := List.mem_map.mp hin
    have hxrow : x ∈ s.files.rows := (mem_filter.mp hx).1
    rw [← eq_of_key hxrow hf hxf]
    exact hcurrent x hx)
  rw [zero_add] at h1
  obtain ⟨hblobs, husage2, _, _, _⟩ := retired_fields hret hdel
  have hrow : ∀ k, tally (taken.map fst) k ≠ 0 → (s2.blobs.get k).isSome = true := by
    intro k hk
    rcases hnone : s2.blobs.get k with _ | b
    · exact absurd ((h1.balanced hcounts).gone k hnone).2 hk
    · rfl
  -- a row never lost more references than it counted
  have hsmall : ∀ k, totalDelta (decrementsOf s2 taken) k ≤ i32Max := by
    intro k
    rw [totalDelta_decrementsOf hrow]
    rcases hb : s2.blobs.get k with _ | b
    · rw [((h1.balanced hcounts).gone k hb).2]
      decide
    · have hpos := refs_nonneg s2.revisions k
      have hfit := hfits b (mem_of_get (hblobs ▸ hb))
      rcases (h1.balanced hcounts).row k b hb with hrefs | ⟨_, _, hzero⟩
      · omega
      · rw [hzero]
        decide
  obtain ⟨m, hm⟩ := normalize_of_fits "decrement_blob_ref_counts_by" decrementsOf_nonneg hsmall
  obtain ⟨blobs, hdecr⟩ : ∃ blobs, decrementBlobRefCountsBy s2.blobs (decrementsOf s2 taken) = .ok blobs := by
    unfold decrementBlobRefCountsBy
    rw [hm]
    exact ⟨_, rfl⟩
  have hfreed : (∃ f ∈ purgeable s files, frees s f.id) → 0 < totalFreed s2 taken := by
    rintro ⟨f, hf, hist, hh, hhf, r, hr, hrh, hlive, hsize⟩
    have hin : r ∈ retiredBy s ((purgeable s files).map File.id) := by
      refine mem_filter.mpr ⟨hr, decide_eq_true ⟨?_, hlive⟩⟩
      rw [hrh]
      exact (mem_historiesOf hh).mpr ⟨f.id, List.mem_map_of_mem hf, hhf⟩
    obtain ⟨k, hk⟩ : ∃ k, r.blobId = some k := by
      have hcontent := h.ledger.content r hr
      rw [hlive] at hcontent
      exact ne_none_iff_exists'.mp fun hnone => by simp [hnone] at hcontent
    rw [totalFreed_eq hrow, taken_eq hret]
    refine lt_of_lt_of_le hsize (le_sum_of_mem (List.mem_map.mpr ⟨(k, r.logicalSize), ?_, rfl⟩))
    exact mem_filterMap.mpr ⟨r, hin, by rw [hk]; rfl⟩
  obtain ⟨r, hcharge⟩ : ∃ r, updateStorageUsed s2.usage scope (-(totalFreed s2 taken : ℤ)) = .ok r := by
    refine updateStorageUsed_lowers (husage2 ▸ husage) (by omega) (hlowers.imp_right fun hf => ?_)
    have hpos := hfreed hf
    omega
  let done : Db := { s2 with
    blobs, usage := r.1, floorsTaken := s2.floorsTaken + if r.2 then 1 else 0 }
  refine ⟨(purgeable s files).map File.id, done, ?_⟩
  unfold purgeFilesOn
  rw [if_neg (by simp [hempty])]
  refine bind_txn_ok.mpr ⟨(), s, hensure files hfiles s, ?_⟩
  refine bind_txn_ok.mpr ⟨s, s, get_txn_ok.mpr ⟨rfl, rfl⟩, ?_⟩
  refine bind_txn_ok.mpr ⟨(), s, hensure (purgeable s files) hcurrent s, ?_⟩
  refine bind_txn_ok.mpr ⟨taken, s1, hret, ?_⟩
  refine bind_txn_ok.mpr ⟨(), s2, hdel, ?_⟩
  refine bind_txn_ok.mpr ⟨s2, s2, get_txn_ok.mpr ⟨rfl, rfl⟩, ?_⟩
  refine bind_txn_ok.mpr ⟨(), { s2 with blobs }, ?_, ?_⟩
  · exact onBlobs_of (map_ok_iff.mpr ⟨blobs, hdecr, rfl⟩)
  · refine bind_txn_ok.mpr ⟨(), done, ?_, pure_txn_ok.mpr ⟨rfl, rfl⟩⟩
    show updateStorageUsedFor scope (-(totalFreed s2 taken : ℤ)) _ = _
    unfold updateStorageUsedFor
    rw [hcharge]

theorem purge_usage {u : StorageUsage}
    (hok : purgeFilesOn scope files s = .ok (ids, s')) (husage : s.usage.get w = some u) :
    ∃ u', s'.usage.get w = some u' ∧ (u.lowers → u'.lowers) := by
  rcases purgeFilesOn_cases hok with
    ⟨_, rfl⟩ | ⟨_, _, taken, s1, s2, blobs, usage, floored, _, hret, hdel, _, hupdate, rfl⟩
  · exact ⟨u, husage, id⟩
  · obtain ⟨_, husage2, _, _, _⟩ := retired_fields hret hdel
    obtain ⟨v, hv, _, hall, _⟩ := updateStorageUsed_ok hupdate
    rw [hall w]
    split_ifs with hw
    · rw [husage2, ← hw, husage] at hv
      cases hv
      refine ⟨_, rfl, fun hlowers => ?_⟩
      unfold StorageUsage.lowers nextStorageUsed at *
      dsimp only
      split_ifs <;> omega
    · rw [husage2]
      exact ⟨u, husage, id⟩

theorem purge_frees
    (hok : purgeFilesOn scope files s = .ok (ids, s')) (hi : i ∉ ids) (hfrees : frees s i) : frees s' i := by
  rcases purgeFilesOn_cases hok with ⟨_, rfl⟩ | ⟨_, _, taken, s1, s2, blobs, _, _, _, hret, hdel, _, _, rfl⟩
  · exact hfrees
  · have hkept : frees s2 i := (live_retired hret hdel).mpr ⟨hfrees, hi⟩
    exact hkept

theorem purge_fits
    (hok : purgeFilesOn scope files s = .ok (ids, s')) (hfits : ∀ b ∈ s.blobs.rows, b.refCount ≤ i32Max) :
    ∀ b ∈ s'.blobs.rows, b.refCount ≤ i32Max := by
  rcases purgeFilesOn_cases hok with ⟨_, rfl⟩ | ⟨_, _, taken, s1, s2, blobs, _, _, _, hret, hdel, hdecr, _, rfl⟩
  · exact hfits
  obtain ⟨hblobs, _, _, _, _⟩ := retired_fields hret hdel
  obtain ⟨_, _, _, hgets⟩ := decrementBy_ok hdecr
  intro b' hb'
  have hget := hgets b'.id
  rw [show blobs.get b'.id = some b' from get_of_mem hb', hblobs] at hget
  obtain ⟨b, hb, hbb'⟩ := map_eq_some_iff.mp hget.symm
  have hfit := hfits b (mem_of_get hb)
  have hpos : 0 ≤ totalDelta (decrementsOf s2 taken) b'.id := totalDelta_nonneg decrementsOf_nonneg _
  rw [← hbb']
  split_ifs
  · exact hfit
  · unfold flooredDecrement i32Max at *
    dsimp only
    split_ifs <;> omega

end AsterDrive.Db
