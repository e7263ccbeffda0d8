import AsterDrive.Lib.Lineage
import AsterDrive.Workspace.Transactions

/-!
# Ledger — the invariant of files, histories and revisions

`Ledger files histories revisions pending` says that every file has one history, that a history's
unretired revisions form a chain from its head in falling sequence order, and that a file repeats
the columns of its current revision. `pending` are the files whose first revision is still to be
written by the running transaction; between transactions there are none.

There is one lemma for each way in which the transactions touch the ledger: a file row, its first
revision, a further revision, a tombstone, a retirement.
-/

namespace AsterDrive.Db

open Lineage List Option SerialTable Table

/-- `l` are the unretired revisions of `h`, newest first, each naming the next one. -/
structure IsLineage (revisions : Revisions) (h : FileRevisionHistory) (l : List FileRevision) : Prop where
  head : h.currentRevisionId = l.head?.map FileRevision.id
  linked : Linked FileRevision.id FileRevision.predecessorRevisionId l
  mem : ∀ r, r ∈ l ↔ r ∈ revisions.rows ∧ r.historyId = h.id ∧ r.retired = false
  falling : l.Pairwise fun a b => b.sequence < a.sequence

/-- The file repeats blob, size and type of the revision. -/
structure Projects (f : File) (r : FileRevision) : Prop where
  blob : r.blobId = some f.blobId
  size : r.logicalSize = f.size
  mime : r.mimeType = some f.mimeType

structure Ledger (files : Files) (histories : Histories) (revisions : Revisions) (pending : Set ℕ) : Prop where
  kept : ∀ f ∈ files.rows, f.id ∉ pending → ∃ h ∈ histories.rows, h.fileId = some f.id
  owned : ∀ h ∈ histories.rows, ∀ i, h.fileId = some i → i ∉ pending ∧ ∃ f ∈ files.rows, f.id = i
  one : ∀ h ∈ histories.rows, ∀ h' ∈ histories.rows, ∀ i, h.fileId = some i → h'.fileId = some i → h = h'
  filed : ∀ r ∈ revisions.rows, ∃ h ∈ histories.rows, h.id = r.historyId ∧ (r.retired = false → ∃ i, h.fileId = some i)
  content : ∀ r ∈ revisions.rows, r.retired = r.blobId.isNone
  distinct : ∀ r ∈ revisions.rows, ∀ r' ∈ revisions.rows, r.historyId = r'.historyId → r.sequence = r'.sequence → r = r'
  below : ∀ h ∈ histories.rows, ∀ r ∈ revisions.rows, r.historyId = h.id → r.sequence < h.nextSequence
  chain : ∀ f ∈ files.rows, ∀ h ∈ histories.rows, h.fileId = some f.id →
    ∃ r l, IsLineage revisions h (r :: l) ∧ Projects f r
  names : ∀ f ∈ files.rows, ∀ g ∈ files.rows, f.liveName.isSome = true → f.liveName = g.liveName → f = g

variable {files : Files} {histories : Histories} {revisions : Revisions} {pending : Set ℕ}

variable {h : FileRevisionHistory} {l : List FileRevision}

theorem IsLineage.congr {revisions' : Revisions} (hl : IsLineage revisions h l)
    (hsame : ∀ r, r.historyId = h.id → r.retired = false →
      (r ∈ revisions'.rows ↔ r ∈ revisions.rows)) : IsLineage revisions' h l := by
  refine ⟨hl.head, hl.linked, ?_, hl.falling⟩
  intro r
  rw [hl.mem r]
  constructor
  · rintro ⟨hr, hh, hret⟩
    exact ⟨(hsame r hh hret).mpr hr, hh, hret⟩
  · rintro ⟨hr, hh, hret⟩
    exact ⟨(hsame r hh hret).mp hr, hh, hret⟩

namespace Ledger

variable (L : Ledger files histories revisions pending)
include L

theorem history_lt {r : FileRevision} (hr : r ∈ revisions.rows) : r.historyId < histories.next := by
  obtain ⟨h, hh, hid, _⟩ := L.filed r hr
  rw [← hid]
  exact histories.below h hh

theorem file_lt {h : FileRevisionHistory} (hh : h ∈ histories.rows) {i : ℕ}
    (hi : h.fileId = some i) : i < files.next := by
  obtain ⟨_, f, hf, rfl⟩ := L.owned h hh i hi
  exact files.below f hf

/-- **A new file row** waits for its first revision. -/
theorem insertFile {mk : ℕ → File} (hmk : ∀ n, (mk n).id = n)
    (hname : ∀ x ∈ files.rows, (mk files.next).liveName.isSome = true → x.liveName ≠ (mk files.next).liveName) :
    Ledger (files.insert mk hmk) histories revisions (insert files.next pending) := by
  refine ⟨?_, ?_, L.one, L.filed, L.content, L.distinct, L.below, ?_, ?_⟩
  · intro f hf hp
    rw [Set.mem_insert_iff, not_or] at hp
    rcases mem_insert.mp hf with hf | rfl
    · exact L.kept f hf hp.2
    · exact absurd (hmk _) hp.1
  · intro h hh i hi
    have hlt := L.file_lt hh hi
    obtain ⟨hp, f, hf, hfi⟩ := L.owned h hh i hi
    refine ⟨?_, f, mem_insert.mpr (.inl hf), hfi⟩
    rw [Set.mem_insert_iff, not_or]
    exact ⟨by omega, hp⟩
  · intro f hf h hh hfile
    rcases mem_insert.mp hf with hf | rfl
    · exact L.chain f hf h hh hfile
    · have hlt := L.file_lt hh hfile
      rw [hmk] at hlt
      omega
  · intro f hf g hg hsome heq
    rcases mem_insert.mp hf with hf | rfl
    · rcases mem_insert.mp hg with hg | rfl
      · exact L.names f hf g hg hsome heq
      · exact absurd heq (hname f hf (heq ▸ hsome))
    · rcases mem_insert.mp hg with hg | rfl
      · exact absurd heq.symm (hname g hg hsome)
      · rfl

/-- **The first revision** of a pending file. -/
theorem enroll {file : File} (hfile : file ∈ files.rows) (hpend : file.id ∈ pending)
    {mkH : ℕ → FileRevisionHistory} (hmkH : ∀ n, (mkH n).id = n)
    {mkR : ℕ → FileRevision} (hmkR : ∀ n, (mkR n).id = n)
    (hH : (mkH histories.next).fileId = some file.id ∧ (mkH histories.next).currentRevisionId = some revisions.next ∧
      (mkH histories.next).nextSequence = 2)
    (hR : (mkR revisions.next).historyId = histories.next ∧ (mkR revisions.next).sequence = 1 ∧
      (mkR revisions.next).predecessorRevisionId = none ∧ (mkR revisions.next).retired = false)
    (hproj : Projects file (mkR revisions.next)) :
    Ledger files (histories.insert mkH hmkH) (revisions.insert mkR hmkR) (pending \ {file.id}) := by
  obtain ⟨hHfile, hHcur, hHnext⟩ := hH
  obtain ⟨hRhist, hRseq, hRpred, hRret⟩ := hR
  have hnohist : ∀ h ∈ histories.rows, h.fileId ≠ some file.id := fun h hh hi => (L.owned h hh _ hi).1 hpend
  -- the new revision is alone in the new history
  have hlone : ∀ r ∈ revisions.rows, r.historyId ≠ histories.next := by
    intro r hr heq
    have hlt := L.history_lt hr
    omega
  refine ⟨?_, ?_, ?_, ?_, ?_, ?_, ?_, ?_, L.names⟩
  · intro f hf hp
    by_cases hid : f.id = file.id
    · exact ⟨mkH histories.next, mem_insert.mpr (.inr rfl), hid ▸ hHfile⟩
    · have hp' : f.id ∉ pending := fun hmem => hp ⟨hmem, hid⟩
      obtain ⟨h, hh, hhf⟩ := L.kept f hf hp'
      exact ⟨h, mem_insert.mpr (.inl hh), hhf⟩
  · intro h hh i hi
    rcases mem_insert.mp hh with hh | rfl
    · obtain ⟨hp, hf⟩ := L.owned h hh i hi
      exact ⟨fun hmem => hp hmem.1, hf⟩
    · rw [hHfile] at hi
      cases hi
      exact ⟨fun hmem => hmem.2 rfl, file, hfile, rfl⟩
  · intro h hh h' hh' i hi hi'
    rcases mem_insert.mp hh with hh | rfl
    · rcases mem_insert.mp hh' with hh' | rfl
      · exact L.one h hh h' hh' i hi hi'
      · rw [hHfile] at hi'
        exact absurd (hi.trans hi'.symm) (hnohist h hh)
    · rcases mem_insert.mp hh' with hh' | rfl
      · rw [hHfile] at hi
        exact absurd (hi'.trans hi.symm) (hnohist h' hh')
      · rfl
  · intro r hr
    rcases mem_insert.mp hr with hr | rfl
    · obtain ⟨h, hh, hid, hret⟩ := L.filed r hr
      exact ⟨h, mem_insert.mpr (.inl hh), hid, hret⟩
    · refine ⟨mkH histories.next, mem_insert.mpr (.inr rfl), ?_, fun _ => ⟨_, hHfile⟩⟩
      rw [hmkH, hRhist]
  · intro r hr
    rcases mem_insert.mp hr with hr | rfl
    · exact L.content r hr
    · rw [hRret, hproj.blob]
      rfl
  · intro r hr r' hr' hhist hseq
    rcases mem_insert.mp hr with hr | rfl
    · rcases mem_insert.mp hr' with hr' | rfl
      · exact L.distinct r hr r' hr' hhist hseq
      · exact absurd (hhist.trans hRhist) (hlone r hr)
    · rcases mem_insert.mp hr' with hr' | rfl
      · exact absurd (hhist.symm.trans hRhist) (hlone r' hr')
      · rfl
  · intro h hh r hr hid
    rcases mem_insert.mp hh with hh | rfl
    · rcases mem_insert.mp hr with hr | rfl
      · exact L.below h hh r hr hid
      · have hlt := histories.below h hh
        omega
    · rcases mem_insert.mp hr with hr | rfl
      · rw [hmkH] at hid
        exact absurd hid (hlone r hr)
      · rw [hRseq, hHnext]
        omega
  · intro f hf h hh hfile'
    rcases mem_insert.mp hh with hh | rfl
    · obtain ⟨r, l, hl, hp⟩ := L.chain f hf h hh hfile'
      refine ⟨r, l, hl.congr ?_, hp⟩
      intro x hx _
      rw [mem_insert]
      constructor
      · rintro (hx' | rfl)
        · exact hx'
        · have hlt := histories.below h hh
          omega
      · exact fun hx' => .inl hx'
    · rw [hHfile] at hfile'
      have hff : f = file := eq_of_key hf hfile (some.inj hfile').symm
      subst hff
      refine ⟨mkR revisions.next, [], ⟨?_, ⟨by rw [hRpred]; rfl, trivial⟩, ?_, by simp⟩, hproj⟩
      · rw [hHcur]
        simp [hmkR]
      · intro x
        rw [mem_insert, mem_singleton, hmkH]
        constructor
        · rintro rfl
          exact ⟨.inr rfl, hRhist, hRret⟩
        · rintro ⟨hx | hx, hid, _⟩
          · exact absurd hid (hlone x hx)
          · exact hx

/-- **A further revision** becomes the head of its history, and the file takes over its columns. -/
theorem append {file : File} (hfile : file ∈ files.rows) {h : FileRevisionHistory}
    (hh : h ∈ histories.rows) (hhf : h.fileId = some file.id)
    {mkR : ℕ → FileRevision} (hmkR : ∀ n, (mkR n).id = n)
    (hR : (mkR revisions.next).historyId = h.id ∧ (mkR revisions.next).sequence = h.nextSequence ∧
      (mkR revisions.next).predecessorRevisionId = h.currentRevisionId ∧
      (mkR revisions.next).retired = false)
    {upF : File → File} (hupF : ∀ f, (upF f).id = f.id)
    (hname : (upF file).liveName = file.liveName) (hproj : Projects (upF file) (mkR revisions.next))
    {upH : FileRevisionHistory → FileRevisionHistory} (hupH : ∀ x, (upH x).id = x.id)
    (hH : (upH h).fileId = h.fileId ∧ (upH h).currentRevisionId = some revisions.next ∧
      (upH h).nextSequence = h.nextSequence + 1) :
    Ledger (files.updateRows (fun f => decide (f.id = file.id)) upF hupF)
      (histories.updateRows (fun x => decide (x.id = h.id)) upH hupH)
      (revisions.insert mkR hmkR) pending := by
  obtain ⟨hRhist, hRseq, hRpred, hRret⟩ := hR
  obtain ⟨hHfile, hHcur, hHnext⟩ := hH
  have memF : ∀ {x : File}, x ∈ (files.updateRows (fun f => decide (f.id = file.id)) upF hupF).rows ↔
      x = upF file ∨ (x ∈ files.rows ∧ x.id ≠ file.id) := mem_updateOne hfile
  have memH : ∀ {x : FileRevisionHistory}, x ∈ (histories.updateRows (fun x => decide (x.id = h.id)) upH hupH).rows ↔
      x = upH h ∨ (x ∈ histories.rows ∧ x.id ≠ h.id) := mem_updateOne hh
  -- another history never belongs to this file
  have hother : ∀ x ∈ histories.rows, x.fileId = some file.id → x = h := fun x hx hxf => L.one x hx h hh _ hxf hhf
  refine ⟨?_, ?_, ?_, ?_, ?_, ?_, ?_, ?_, ?_⟩
  · intro f hf hp
    rcases memF.mp hf with rfl | ⟨hf, hne⟩
    · exact ⟨upH h, memH.mpr (.inl rfl), by rw [hHfile, hhf, hupF]⟩
    · obtain ⟨x, hx, hxf⟩ := L.kept f hf hp
      refine ⟨x, memH.mpr (.inr ⟨hx, ?_⟩), hxf⟩
      intro hid
      obtain rfl : x = h := eq_of_key hx hh hid
      exact hne (some.inj (hxf.symm.trans hhf))
  · have hpend : file.id ∉ pending := (L.owned h hh _ hhf).1
    intro x hx i hi
    rcases memH.mp hx with rfl | ⟨hx, hne⟩
    · rw [hHfile, hhf] at hi
      cases hi
      exact ⟨hpend, upF file, memF.mpr (.inl rfl), hupF file⟩
    · obtain ⟨hp, f, hf, rfl⟩ := L.owned x hx i hi
      refine ⟨hp, f, memF.mpr (.inr ⟨hf, ?_⟩), rfl⟩
      intro hid
      rw [hid] at hi
      exact hne (by rw [hother x hx hi])
  · intro x hx y hy i hi hj
    rcases memH.mp hx with rfl | ⟨hx, hxne⟩
    · rcases memH.mp hy with rfl | ⟨hy, hyne⟩
      · rfl
      · rw [hHfile] at hi
        exact absurd (by rw [L.one y hy h hh i hj hi]) hyne
    · rcases memH.mp hy with rfl | ⟨hy, hyne⟩
      · rw [hHfile] at hj
        exact absurd (by rw [L.one x hx h hh i hi hj]) hxne
      · exact L.one x hx y hy i hi hj
  · intro r hr
    rcases mem_insert.mp hr with hr | rfl
    · obtain ⟨x, hx, hid, hret⟩ := L.filed r hr
      by_cases hxh : x.id = h.id
      · refine ⟨upH h, memH.mpr (.inl rfl), by rw [hupH, ← hxh, hid], fun _ => ⟨file.id, ?_⟩⟩
        rw [hHfile, hhf]
      · exact ⟨x, memH.mpr (.inr ⟨hx, hxh⟩), hid, hret⟩
    · refine ⟨upH h, memH.mpr (.inl rfl), by rw [hupH, hRhist], fun _ => ⟨file.id, ?_⟩⟩
      rw [hHfile, hhf]
  · intro r hr
    rcases mem_insert.mp hr with hr | rfl
    · exact L.content r hr
    · rw [hRret, hproj.blob]
      rfl
  · have hnew : ∀ r ∈ revisions.rows, r.historyId = h.id → r.sequence ≠ h.nextSequence := by
      intro r hr hid hseq
      have hlt := L.below h hh r hr hid
      omega
    intro r hr r' hr' hhist hseq
    rcases mem_insert.mp hr with hr | rfl
    · rcases mem_insert.mp hr' with hr' | rfl
      · exact L.distinct r hr r' hr' hhist hseq
      · exact absurd (hseq.trans hRseq) (hnew r hr (hhist.trans hRhist))
    · rcases mem_insert.mp hr' with hr' | rfl
      · exact absurd (hseq.symm.trans hRseq) (hnew r' hr' (hhist.symm.trans hRhist))
      · rfl
  · intro x hx r hr hid
    rcases memH.mp hx with rfl | ⟨hx, hne⟩
    · rw [hHnext]
      rcases mem_insert.mp hr with hr | rfl
      · have hlt := L.below h hh r hr (hid.trans (hupH h))
        omega
      · omega
    · rcases mem_insert.mp hr with hr | rfl
      · exact L.below x hx r hr hid
      · exact absurd (hid.symm.trans hRhist) hne
  · intro f hf x hx hxf
    rcases memH.mp hx with rfl | ⟨hx, hne⟩
    · -- the history of this file: one revision more in front of the old chain
      have hid : f.id = file.id := by
        rw [hHfile, hhf] at hxf
        exact (some.inj hxf).symm
      have hfe : f = upF file := by
        rcases memF.mp hf with rfl | ⟨_, hne⟩
        · rfl
        · exact absurd hid hne
      subst hfe
      obtain ⟨r, l, hl, _⟩ := L.chain file hfile h hh hhf
      refine ⟨mkR revisions.next, r :: l, ⟨?_, linked_cons ?_ hl.linked, ?_, ?_⟩, hproj⟩
      · rw [hHcur]
        simp [hmkR]
      · rw [hRpred]
        exact hl.head
      · intro y
        rw [mem_cons, hl.mem y, mem_insert, hupH]
        constructor
        · rintro (rfl | ⟨hy, hid, hret⟩)
          · exact ⟨.inr rfl, hRhist, hRret⟩
          · exact ⟨.inl hy, hid, hret⟩
        · rintro ⟨hy | rfl, hid, hret⟩
          · exact .inr ⟨hy, hid, hret⟩
          · exact .inl rfl
      · refine pairwise_cons.mpr ⟨?_, hl.falling⟩
        intro y hy
        obtain ⟨hy, hid, _⟩ := (hl.mem y).mp hy
        rw [hRseq]
        exact L.below h hh y hy hid
    · have hff : f ∈ files.rows := by
        rcases memF.mp hf with rfl | ⟨hf, _⟩
        · rw [hupF] at hxf
          exact absurd (by rw [hother x hx hxf]) hne
        · exact hf
      obtain ⟨r, l, hl, hp⟩ := L.chain f hff x hx hxf
      refine ⟨r, l, hl.congr ?_, hp⟩
      intro y hy _
      rw [mem_insert]
      constructor
      · rintro (hy' | rfl)
        · exact hy'
        · exact absurd (hy.symm.trans hRhist) hne
      · exact fun hy' => .inl hy'
  · intro f hf g hg hsome heq
    rcases memF.mp hf with rfl | ⟨hf, hfne⟩
    · rcases memF.mp hg with rfl | ⟨hg, hgne⟩
      · rfl
      · rw [hname] at hsome heq
        exact absurd (by rw [L.names file hfile g hg hsome heq]) hgne
    · rcases memF.mp hg with rfl | ⟨hg, hgne⟩
      · rw [hname] at heq
        exact absurd (by rw [L.names f hf file hfile hsome heq]) hfne
      · exact L.names f hf g hg hsome heq

end Ledger

/-! ### Tombstones -/

/-- What `tombstone v` makes of a row, when `successor` is the row that named `v`. -/
def entomb (successor : Option ℕ) (v r : FileRevision) : FileRevision :=
  let relinked :=
    if some r.id = successor then { r with predecessorRevisionId := v.predecessorRevisionId } else r
  if relinked.id = v.id then { relinked with blobId := none, retired := true } else relinked

section

variable {successor : Option ℕ} {v r : FileRevision}

theorem entomb_historyId : (entomb successor v r).historyId = r.historyId := by
  unfold entomb
  dsimp only
  split_ifs <;> rfl

theorem entomb_sequence : (entomb successor v r).sequence = r.sequence := by
  unfold entomb
  dsimp only
  split_ifs <;> rfl

theorem entomb_of_ne (hne : r.id ≠ v.id) : entomb successor v r =
      if some r.id = successor then { r with predecessorRevisionId := v.predecessorRevisionId }
      else r := by
  unfold entomb
  by_cases hs : some r.id = successor
  · rw [if_pos hs, if_neg hne]
  · rw [if_neg hs, if_neg hne]

theorem entomb_retired : (entomb successor v r).retired = (r.retired || decide (r.id = v.id)) := by
  unfold entomb
  dsimp only
  split_ifs <;> simp_all

theorem entomb_content (h : r.retired = r.blobId.isNone) :
    (entomb successor v r).retired = (entomb successor v r).blobId.isNone := by
  unfold entomb
  dsimp only
  split_ifs <;> simp_all

end

variable {s s' : Db} {v : FileRevision} {u : Unit}

theorem mem_tombstone (h : tombstone v s = .ok (u, s')) {x : FileRevision} : x ∈ s'.revisions.rows ↔
      ∃ y ∈ s.revisions.rows, entomb ((successorOf s v).map FileRevision.id) v y = x := by
  unfold tombstone at h
  cases h
  rw [mem_updateRows]
  constructor
  · rintro ⟨z, hz, rfl⟩
    obtain ⟨y, hy, rfl⟩ := mem_updateRows.mp hz
    refine ⟨y, hy, ?_⟩
    unfold entomb
    simp only [decide_eq_true_eq]
  · rintro ⟨y, hy, rfl⟩
    refine ⟨_, mem_updateRows.mpr ⟨y, hy, rfl⟩, ?_⟩
    unfold entomb
    simp only [decide_eq_true_eq]

theorem IsLineage.nodup (hl : IsLineage revisions h l) : (l.map FileRevision.id).Nodup := by
  have hnd : l.Nodup := by
    refine hl.falling.imp ?_
    intro a b hab heq
    rw [heq] at hab
    omega
  refine Nodup.map_on ?_ hnd
  intro x hx y hy hxy
  exact eq_of_key ((hl.mem x).mp hx).1 ((hl.mem y).mp hy).1 hxy

theorem IsLineage.successor (hl : IsLineage s.revisions h l) (hv : v ∈ l) {y : FileRevision} (hy : y ∈ l) :
    some y.id = (successorOf s v).map FileRevision.id ↔ y.predecessorRevisionId = some v.id := by
  obtain ⟨_, hvh, _⟩ := (hl.mem v).mp hv
  obtain ⟨hyr, hyh, hyret⟩ := (hl.mem y).mp hy
  unfold successorOf
  constructor
  · intro heq
    obtain ⟨z, hz, hzid⟩ := map_eq_some_iff.mp heq.symm
    have hzrow := mem_of_find?_eq_some hz
    have hzp := find?_some hz
    obtain rfl : z = y := eq_of_key hzrow hyr hzid
    rw [decide_eq_true_eq] at hzp
    exact hzp.2.1
  · intro hpred
    rcases hz : s.revisions.rows.find? (fun r => decide (r.historyId = v.historyId ∧
        r.predecessorRevisionId = some v.id ∧ r.retired = false)) with _ | z
    · have hnone := find?_eq_none.mp hz y hyr
      exact absurd (decide_eq_true ⟨hyh.trans hvh.symm, hpred, hyret⟩) hnone
    · have hzrow := mem_of_find?_eq_some hz
      have hzp := find?_some hz
      rw [decide_eq_true_eq] at hzp
      have hzl : z ∈ l := (hl.mem z).mpr ⟨hzrow, hzp.1.trans hvh, hzp.2.2⟩
      rw [hl.linked.pred_unique hl.nodup hy hzl hpred hzp.2.1, hz, map_some]

/-- **A tombstone** keeps the ledger: the chain closes over the gap. -/
theorem Ledger.tombstone (L : Ledger s.files s.histories s.revisions pending) (htomb : tombstone v s = .ok (u, s'))
    (hv : v ∈ s.revisions.rows) (hvret : v.retired = false)
    (hh : h ∈ s.histories.rows) (hvh : v.historyId = h.id) (hcur : h.currentRevisionId ≠ some v.id) :
    Ledger s'.files s'.histories s'.revisions pending := by
  have hfiles : s'.files = s.files := by
    cases htomb
    rfl
  have hhist : s'.histories = s.histories := by
    cases htomb
    rfl
  rw [hfiles, hhist]
  have memR := fun {x : FileRevision} => mem_tombstone (x := x) htomb
  refine ⟨L.kept, L.owned, L.one, ?_, ?_, ?_, ?_, ?_, L.names⟩
  · intro x hx
    obtain ⟨y, hy, rfl⟩ := memR.mp hx
    obtain ⟨g, hg, hid, hret⟩ := L.filed y hy
    refine ⟨g, hg, by rw [entomb_historyId, hid], ?_⟩
    intro hx
    rw [entomb_retired, Bool.or_eq_false_iff] at hx
    exact hret hx.1
  · intro x hx
    obtain ⟨y, hy, rfl⟩ := memR.mp hx
    exact entomb_content (L.content y hy)
  · intro x hx x' hx' hhist' hseq
    obtain ⟨y, hy, rfl⟩ := memR.mp hx
    obtain ⟨y', hy', rfl⟩ := memR.mp hx'
    rw [entomb_historyId, entomb_historyId] at hhist'
    rw [entomb_sequence, entomb_sequence] at hseq
    rw [L.distinct y hy y' hy' hhist' hseq]
  · intro g hg x hx hid
    obtain ⟨y, hy, rfl⟩ := memR.mp hx
    rw [entomb_historyId] at hid
    rw [entomb_sequence]
    exact L.below g hg y hy hid
  · intro f hf g hg hgf
    obtain ⟨r, l, hl, hp⟩ := L.chain f hf g hg hgf
    by_cases hgh : g.id = h.id
    · obtain rfl : g = h := eq_of_key hg hh hgh
      have hvl : v ∈ r :: l := (hl.mem v).mpr ⟨hv, hvh, hvret⟩
      have hrv : r.id ≠ v.id := by
        intro heq
        rw [hl.head, head?_cons, map_some, heq] at hcur
        exact hcur rfl
      let relink := fun (r : FileRevision) p => { r with predecessorRevisionId := p }
      let l' := unlink FileRevision.id FileRevision.predecessorRevisionId relink v (r :: l)
      -- the head is not taken out, so it stays the head
      obtain ⟨r', l'', hl', hr'⟩ : ∃ r' l'', l' = r' :: l'' ∧ Projects f r' := by
        refine ⟨if r.predecessorRevisionId = some v.id then relink r v.predecessorRevisionId else r,
          unlink FileRevision.id FileRevision.predecessorRevisionId relink v l, ?_, ?_⟩
        · show unlink _ _ _ v (r :: l) = _
          simp [unlink, hrv]
        · split_ifs
          · exact ⟨hp.blob, hp.size, hp.mime⟩
          · exact hp
      refine ⟨r', l'', ?_, hr'⟩
      rw [← hl']
      have hid : ∀ x p, (relink x p).id = x.id := fun _ _ => rfl
      refine ⟨?_, linked_unlink hid (fun _ _ => rfl) hl.linked hl.nodup hvl, ?_, ?_⟩
      · rw [head_unlink hid hl.linked hl.nodup hvl, ← hl.head, if_neg hcur]
      · intro x
        show x ∈ unlink _ _ _ v (r :: l) ↔ _
        unfold unlink
        rw [List.mem_map]
        constructor
        · rintro ⟨y, hy, rfl⟩
          obtain ⟨hy, hne⟩ := mem_filter.mp hy
          rw [decide_eq_true_eq] at hne
          obtain ⟨hyr, hyh, hyret⟩ := (hl.mem y).mp hy
          have heq : entomb ((successorOf s v).map FileRevision.id) v y =
              if y.predecessorRevisionId = some v.id then relink y v.predecessorRevisionId
              else y := by
            rw [entomb_of_ne hne]
            by_cases hpred : y.predecessorRevisionId = some v.id
            · rw [if_pos hpred, if_pos ((hl.successor hvl hy).mpr hpred)]
            · rw [if_neg hpred, if_neg (fun hs => hpred ((hl.successor hvl hy).mp hs))]
          rw [← heq]
          refine ⟨memR.mpr ⟨y, hyr, rfl⟩, by rw [entomb_historyId, hyh], ?_⟩
          rw [entomb_retired, hyret]
          simp [hne]
        · rintro ⟨hx, hxh, hxret⟩
          obtain ⟨y, hyr, rfl⟩ := memR.mp hx
          rw [entomb_historyId] at hxh
          rw [entomb_retired, Bool.or_eq_false_iff, decide_eq_false_iff_not] at hxret
          have hy : y ∈ r :: l := (hl.mem y).mpr ⟨hyr, hxh, hxret.1⟩
          refine ⟨y, mem_filter.mpr ⟨hy, decide_eq_true hxret.2⟩, ?_⟩
          rw [entomb_of_ne hxret.2]
          by_cases hpred : y.predecessorRevisionId = some v.id
          · rw [if_pos hpred, if_pos ((hl.successor hvl hy).mpr hpred)]
          · rw [if_neg hpred, if_neg (fun hs => hpred ((hl.successor hvl hy).mp hs))]
      · show (unlink _ _ _ v (r :: l)).Pairwise _
        unfold unlink
        rw [pairwise_map]
        refine (hl.falling.filter _).imp ?_
        intro a b hab
        have hseq : ∀ z : FileRevision, (if z.predecessorRevisionId = some v.id then
            relink z v.predecessorRevisionId else z).sequence = z.sequence := by
          intro z
          split_ifs <;> rfl
        rw [hseq a, hseq b]
        exact hab
    · refine ⟨r, l, hl.congr ?_, hp⟩
      -- neither `v` nor its successor lies in another history
      have hother : ∀ y ∈ s.revisions.rows, y.historyId = g.id →
          entomb ((successorOf s v).map FileRevision.id) v y = y := by
        intro y hy hyg
        have hne : y.id ≠ v.id := by
          intro heq
          obtain rfl : y = v := eq_of_key hy hv heq
          exact hgh (hyg.symm.trans hvh)
        rw [entomb_of_ne hne, if_neg]
        intro hs
        obtain ⟨z, hz, hzid⟩ := map_eq_some_iff.mp hs.symm
        unfold successorOf at hz
        have hzp := find?_some hz
        rw [decide_eq_true_eq] at hzp
        obtain rfl : z = y := eq_of_key (mem_of_find?_eq_some hz) hy hzid
        exact hgh (hyg.symm.trans (hzp.1.trans hvh))
      intro x hx _
      rw [memR]
      constructor
      · rintro ⟨y, hy, rfl⟩
        rw [entomb_historyId] at hx
        rw [hother y hy hx]
        exact hy
      · intro hxr
        exact ⟨x, hxr, hother x hxr hx⟩

/-! ### Retirement -/

/-- The histories of the given files. -/
def historiesOf (s : Db) (fileIds : List ℕ) : List ℕ :=
  (s.histories.rows.filter fun h => ∃ f ∈ fileIds, h.fileId = some f).map FileRevisionHistory.id

theorem mem_historiesOf {fileIds : List ℕ} (hh : h ∈ s.histories.rows) :
    h.id ∈ historiesOf s fileIds ↔ ∃ f ∈ fileIds, h.fileId = some f := by
  unfold historiesOf
  rw [List.mem_map]
  constructor
  · rintro ⟨x, hx, hid⟩
    obtain ⟨hx, hp⟩ := mem_filter.mp hx
    rw [decide_eq_true_eq] at hp
    rw [← eq_of_key hx hh hid]
    exact hp
  · intro hp
    exact ⟨h, mem_filter.mpr ⟨hh, decide_eq_true hp⟩, rfl⟩

/-- **A retirement** together with the deletion of the files. -/
theorem Ledger.retire {s1 : Db} (L : Ledger s.files s.histories s.revisions pending)
    {fileIds : List ℕ} {refs : List (ℕ × ℕ)}
    (hret : retireHistories fileIds s = .ok (refs, s1)) (hdel : deleteFiles fileIds s1 = .ok (u, s')) :
    Ledger s'.files s'.histories s'.revisions pending := by
  unfold retireHistories at hret
  cases hret
  cases hdel
  change Ledger (s.files.deleteRows fun f => decide (f.id ∈ fileIds))
    (s.histories.updateRows (fun h => decide (h.id ∈ historiesOf s fileIds))
      (fun h => { h with fileId := none, currentRevisionId := none, retired := true }) fun _ => rfl)
    (s.revisions.updateRows (fun r => decide (r.historyId ∈ historiesOf s fileIds ∧ r.retired = false))
      (fun r => { r with blobId := none, retired := true }) fun _ => rfl) pending
  -- a history that still has a file was not touched, nor were its revisions
  have memH : ∀ {x : FileRevisionHistory}, x ∈ (s.histories.updateRows (fun h => decide (h.id ∈ historiesOf s fileIds))
      (fun h => { h with fileId := none, currentRevisionId := none, retired := true })
      fun _ => rfl).rows → ∀ i, x.fileId = some i →
      x ∈ s.histories.rows ∧ x.id ∉ historiesOf s fileIds := by
    intro x hx i hi
    obtain ⟨y, hy, rfl⟩ := mem_updateRows.mp hx
    by_cases hin : y.id ∈ historiesOf s fileIds
    · rw [if_pos (decide_eq_true hin)] at hi
      simp at hi
    · rw [if_neg (by simpa using hin)]
      exact ⟨hy, hin⟩
  have keepH : ∀ {x : FileRevisionHistory}, x ∈ s.histories.rows → x.id ∉ historiesOf s fileIds →
      x ∈ (s.histories.updateRows (fun h => decide (h.id ∈ historiesOf s fileIds))
      (fun h => { h with fileId := none, currentRevisionId := none, retired := true })
      fun _ => rfl).rows := by
    intro x hx hout
    exact mem_updateRows.mpr ⟨x, hx, if_neg (by simpa using hout)⟩
  have memR : ∀ {x : FileRevision}, x ∈ (s.revisions.updateRows
      (fun r => decide (r.historyId ∈ historiesOf s fileIds ∧ r.retired = false))
      (fun r => { r with blobId := none, retired := true }) fun _ => rfl).rows →
      ∃ y ∈ s.revisions.rows, x.historyId = y.historyId ∧ x.sequence = y.sequence ∧
        (x = y ∨ x.retired = true ∧ x.blobId = none) ∧
        (x.retired = false → y.historyId ∉ historiesOf s fileIds) ∧ x.id = y.id := by
    intro x hx
    obtain ⟨y, hy, rfl⟩ := mem_updateRows.mp hx
    refine ⟨y, hy, ?_⟩
    by_cases hp : y.historyId ∈ historiesOf s fileIds ∧ y.retired = false
    · rw [if_pos (decide_eq_true hp)]
      exact ⟨rfl, rfl, .inr ⟨rfl, rfl⟩, by simp, rfl⟩
    · rw [if_neg (by simpa using hp)]
      exact ⟨rfl, rfl, .inl rfl, fun hr hin => hp ⟨hin, hr⟩, rfl⟩
  refine ⟨?_, ?_, ?_, ?_, ?_, ?_, ?_, ?_, ?_⟩
  · intro f hf hp
    obtain ⟨hf, hout⟩ := mem_deleteWhere.mp hf
    rw [decide_eq_false_iff_not] at hout
    obtain ⟨h, hh, hhf⟩ := L.kept f hf hp
    refine ⟨h, keepH hh ?_, hhf⟩
    rw [mem_historiesOf hh]
    rintro ⟨i, hi, hhi⟩
    obtain rfl := some.inj (hhf.symm.trans hhi)
    exact hout hi
  · intro h hh i hi
    obtain ⟨hh', hout⟩ := memH hh i hi
    obtain ⟨hp, f, hf, rfl⟩ := L.owned h hh' i hi
    refine ⟨hp, f, mem_deleteWhere.mpr ⟨hf, ?_⟩, rfl⟩
    rw [decide_eq_false_iff_not]
    intro hin
    exact hout ((mem_historiesOf hh').mpr ⟨f.id, hin, hi⟩)
  · intro h hh h' hh' i hi hi'
    exact L.one h (memH hh i hi).1 h' (memH hh' i hi').1 i hi hi'
  · intro x hx
    obtain ⟨y, hy, hhist, _, hxy, hout, _⟩ := memR hx
    obtain ⟨h, hh, hid, hlive⟩ := L.filed y hy
    by_cases hin : h.id ∈ historiesOf s fileIds
    · refine ⟨_, mem_updateRows.mpr ⟨h, hh, if_pos (decide_eq_true hin)⟩, ?_, ?_⟩
      · rw [hhist]
        exact hid
      · intro hr
        exact absurd (hid ▸ hin) (hout hr)
    · refine ⟨h, keepH hh hin, hid.trans hhist.symm, ?_⟩
      intro hr
      rcases hxy with rfl | ⟨hret, _⟩
      · exact hlive hr
      · rw [hr] at hret
        simp at hret
  · intro x hx
    obtain ⟨y, hy, _, _, hxy, _⟩ := memR hx
    rcases hxy with rfl | ⟨hret, hblob⟩
    · exact L.content x hy
    · rw [hret, hblob]
      rfl
  · intro x hx x' hx' hhist hseq
    obtain ⟨y, hy, hyh, hys, _, _, hid⟩ := memR hx
    obtain ⟨y', hy', hyh', hys', _, _, hid'⟩ := memR hx'
    have hyy : y = y' := L.distinct y hy y' hy' (by rw [← hyh, hhist, hyh']) (by rw [← hys, hseq, hys'])
    exact eq_of_key hx hx' (by rw [hid, hid', hyy])
  · intro h hh x hx hid
    obtain ⟨y, hy, hyh, hys, _⟩ := memR hx
    obtain ⟨g, hg, rfl⟩ := mem_updateRows.mp hh
    rw [hys]
    have hlt := L.below g hg y hy
    split_ifs at hid ⊢
    all_goals exact hlt (hyh.symm.trans hid)
  · intro f hf h hh hfile
    obtain ⟨hh', hout⟩ := memH hh _ hfile
    obtain ⟨r, l, hl, hp⟩ := L.chain f (mem_deleteWhere.mp hf).1 h hh' hfile
    refine ⟨r, l, hl.congr ?_, hp⟩
    intro x hx hxret
    constructor
    · intro hmem
      obtain ⟨y, hy, _, _, hxy, _⟩ := memR hmem
      rcases hxy with rfl | ⟨hret, _⟩
      · exact hy
      · rw [hxret] at hret
        simp at hret
    · intro hmem
      refine mem_updateRows.mpr ⟨x, hmem, if_neg ?_⟩
      rw [decide_eq_true_eq]
      rintro ⟨hin, _⟩
      exact hout (hx ▸ hin)
  · intro f hf g hg
    exact L.names f (mem_deleteWhere.mp hf).1 g (mem_deleteWhere.mp hg).1

end AsterDrive.Db
