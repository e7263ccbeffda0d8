import AsterDrive.Db.Schema

/-!
# Sharing/Shares — the share rows and the statements on their counters

A `shares` row points at one file or one folder, and may carry an expiry and a download limit. The
download counter goes up by a conditional update, which refuses when the limit is reached, and goes
down by an update that stops at zero (`share_repo.rs`).
-/

namespace AsterDrive.Sharing

/-- `share::Model`: the columns that decide who may use a share; `maxDownloads = 0` is no limit. -/
structure Share where
  id : ℕ
  userId : ℕ
  teamId : Option ℕ
  fileId : Option ℕ
  folderId : Option ℕ
  expiresAt : Option ℕ
  maxDownloads : ℕ
  downloadCount : ℕ
  deriving DecidableEq

abbrev Shares := SerialTable Share.id

/-- `available_downloads_condition`. -/
def availableDownloads (s : Share) : Bool := s.maxDownloads = 0 ∨ s.downloadCount < s.maxDownloads

/-- `increment_download_count`: one more download, `false` when the limit does not allow it. -/
def incrementDownloadCount (t : Shares) (id : ℕ) : Bool × Shares :=
  (decide (∃ s ∈ t.rows, s.id = id ∧ availableDownloads s), t.updateRows (fun s => s.id = id ∧ availableDownloads s)
      (fun s => { s with downloadCount := s.downloadCount + 1 }) fun _ => rfl)

/-- The new value of the counter: `CASE WHEN download_count < by THEN 0 ELSE download_count - by`. -/
def loweredCount (downloadCount decrementBy : ℕ) : ℕ :=
  if downloadCount < decrementBy then 0 else downloadCount - decrementBy

/-- `decrement_download_count_by`: `false` when there is no such share, or its counter is at zero. -/
def decrementDownloadCountBy (t : Shares) (id count : ℕ) : Bool × Shares :=
  if count = 0 then (false, t)
  else
    (decide (∃ s ∈ t.rows, s.id = id ∧ 0 < s.downloadCount), t.updateRows (fun s => s.id = id ∧ 0 < s.downloadCount)
        (fun s => { s with downloadCount := loweredCount s.downloadCount count }) fun _ => rfl)

section

variable {t : Shares} {id k count : ℕ} {s : Share}

theorem get_increment (h : t.get k = some s) : (incrementDownloadCount t id).2.get k =
      some (if s.id = id ∧ availableDownloads s then { s with downloadCount := s.downloadCount + 1 } else s) := by
  unfold incrementDownloadCount
  dsimp only
  rw [SerialTable.get_updateRows, h]
  simp

theorem increment_fst : (incrementDownloadCount t id).1 = true ↔ ∃ s, t.get id = some s ∧ availableDownloads s := by
  unfold incrementDownloadCount
  simp only [decide_eq_true_eq]
  constructor
  · rintro ⟨s, hs, rfl, hav⟩
    exact ⟨s, Table.get_of_mem hs, hav⟩
  · rintro ⟨s, hs, hav⟩
    exact ⟨s, Table.mem_of_get hs, Table.key_of_get hs, hav⟩

theorem get_decrement (h : t.get k = some s) : (decrementDownloadCountBy t id count).2.get k =
      some (if s.id = id then { s with downloadCount := loweredCount s.downloadCount count } else s) := by
  unfold decrementDownloadCountBy
  split_ifs with hcount hid hid
  · subst hcount
    rw [h]
    simp [loweredCount]
  · rw [h]
  · rw [SerialTable.get_updateRows, h]
    by_cases hpos : 0 < s.downloadCount
    · simp [hid, hpos]
    · have hzero : s.downloadCount = 0 := by omega
      cases s
      simp only at hzero
      subst hzero
      simp [loweredCount]
  · rw [SerialTable.get_updateRows, h]
    simp [hid]

end

end AsterDrive.Sharing
