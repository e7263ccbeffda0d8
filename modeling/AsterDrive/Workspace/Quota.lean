import AsterDrive.Db.Schema

/-!
# Quota — `check_quota` and `update_storage_used`

The two functions exist once for users and once for teams, with the same statements; here they are
one definition each, with the table's name and the words of its messages as parameters. A positive
delta is a compare-and-set against the quota, a negative one is clamped at zero.
-/

namespace AsterDrive.Db

namespace WorkspaceResourceScope

/-- The row as the repositories name it in `record_not_found`. -/
def label : WorkspaceResourceScope → String
  | personal userId => "user #" ++ toString userId
  | team teamId => "team #" ++ toString teamId

/-- The first words of the quota message. -/
def quotaLabel : WorkspaceResourceScope → String
  | personal _ => "quota "
  | team _ => "team quota "

end WorkspaceResourceScope

def usageNotFound (scope : WorkspaceResourceScope) : AsterError := .recordNotFound { message := scope.label }

def storageQuotaExceeded (u : StorageUsage) (need : ℤ) : AsterError :=
  .storageQuotaExceeded
    { message := u.scope.quotaLabel ++ toString u.storageQuota ++ ", used "
        ++ toString u.storageUsed ++ ", need " ++ toString need }

/-- `quota > 0 && used + need > quota`. -/
def StorageUsage.exceeds (u : StorageUsage) (need : ℤ) : Prop :=
  0 < u.storageQuota ∧ u.storageQuota < u.storageUsed + need

instance (u : StorageUsage) (need : ℤ) : Decidable (u.exceeds need) := inferInstanceAs (Decidable (_ ∧ _))

/-- `check_quota`; the team variant only sees teams that are not archived. -/
def checkQuota (t : Usage) (scope : WorkspaceResourceScope) (neededSize : ℤ) :
    Except AsterError Unit :=
  match t.get scope with
  | none => .error (usageNotFound scope)
  | some u =>
    if u.archived then .error (usageNotFound scope)
    else if u.exceeds neededSize then .error (storageQuotaExceeded u neededSize)
    else .ok ()

/-- The new value of the column: `used + delta`, clamped at zero when `delta` is negative. -/
def nextStorageUsed (used delta : ℤ) : ℤ :=
  if 0 ≤ delta then used + delta
  else if used < -delta then 0
  else used - -delta

/-- The filter of the statement: by id, and for an increase also by the quota. -/
def acceptsDelta (scope : WorkspaceResourceScope) (delta : ℤ) (u : StorageUsage) : Bool :=
  u.scope = scope ∧ (0 ≤ delta → u.storageQuota = 0 ∨ u.storageUsed + delta ≤ u.storageQuota)

/-- `update_storage_used`. The flag tells that the clamp was taken. -/
def updateStorageUsed (t : Usage) (scope : WorkspaceResourceScope) (delta : ℤ) : Except AsterError (Usage × Bool) :=
  if t.affected (acceptsDelta scope delta) = 0 then
    match t.get scope with
    | none => .error (usageNotFound scope)
    | some u =>
      if 0 ≤ delta ∧ u.exceeds delta then .error (storageQuotaExceeded u delta)
      else .error (usageNotFound scope)
  else .ok (t.updateWhere (acceptsDelta scope delta)
      (fun u => { u with storageUsed := nextStorageUsed u.storageUsed delta }) fun _ => rfl,
    t.rows.any fun u => u.scope = scope ∧ delta < 0 ∧ u.storageUsed < -delta)

/-! ### What a successful update did -/

section

variable {t t' : Usage} {scope : WorkspaceResourceScope} {delta : ℤ} {floored : Bool}

/-- **The update's contract.** An increase fits under a positive quota, only the one row changes,
and the clamp is reported exactly when more was taken away than there was. -/
theorem updateStorageUsed_ok (h : updateStorageUsed t scope delta = .ok (t', floored)) : ∃ u, t.get scope = some u ∧
      (0 ≤ delta → u.storageQuota = 0 ∨ u.storageUsed + delta ≤ u.storageQuota) ∧
      (∀ w, t'.get w = if w = scope then
        some { u with storageUsed := nextStorageUsed u.storageUsed delta } else t.get w) ∧
      (floored = true ↔ delta < 0 ∧ u.storageUsed < -delta) := by
  unfold updateStorageUsed at h
  split_ifs at h with haff
  · split at h
    · simp at h
    · split_ifs at h
  cases h
  -- some row meets the filter, and it is the row of this scope
  obtain ⟨u, hu, hacc⟩ : ∃ u ∈ t.rows, acceptsDelta scope delta u = true := by
    rw [← List.countP_pos_iff]
    unfold Table.affected at haff
    omega
  have hacc' := hacc
  unfold acceptsDelta at hacc'
  rw [decide_eq_true_eq] at hacc'
  obtain ⟨hscope, hquota⟩ := hacc'
  have hget : t.get scope = some u := Table.get_eq_some_iff.mpr ⟨hu, hscope⟩
  refine ⟨u, hget, hquota, ?_, ?_⟩
  · intro w
    rw [Table.get_updateWhere]
    by_cases hw : w = scope
    · subst hw
      rw [hget, Option.map_some, if_pos hacc, if_pos rfl]
    · rw [if_neg hw]
      rcases hx : t.get w with _ | x
      · rfl
      · have hxw : x.scope = w := Table.key_of_get hx
        have hnot : ¬ acceptsDelta scope delta x = true := by
          unfold acceptsDelta
          rw [decide_eq_true_eq]
          exact fun hc => hw (hxw.symm.trans hc.1)
        rw [Option.map_some, if_neg hnot]
  · rw [List.any_eq_true]
    constructor
    · rintro ⟨x, hx, hxf⟩
      rw [decide_eq_true_eq] at hxf
      obtain rfl : x = u := Table.eq_of_key hx hu (hxf.1.trans hscope.symm)
      exact hxf.2
    · intro hf
      exact ⟨u, hu, decide_eq_true ⟨hscope, hf⟩⟩

end

/-- `check_quota` inside a transaction. -/
def checkQuotaOn (scope : WorkspaceStorageScope) (size : ℤ) : Txn Unit := do
  let s ← get
  check (checkQuota s.usage scope.resource size)

/-- `update_storage_used_for_resource_scope`, with the clamp counted. -/
def updateStorageUsedFor (scope : WorkspaceResourceScope) (delta : ℤ) : Txn Unit := fun s =>
  match updateStorageUsed s.usage scope delta with
  | .error e => .error e
  | .ok (usage, floored) =>
    .ok ((), { s with usage, floorsTaken := s.floorsTaken + if floored then 1 else 0 })

def updateStorageUsedOn (scope : WorkspaceStorageScope) (delta : ℤ) : Txn Unit :=
  updateStorageUsedFor scope.resource delta

end AsterDrive.Db
