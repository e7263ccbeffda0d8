import AsterDrive.Upload.MultipartPlan
import Mathlib.Tactic.Linarith

/-!
# Storage.MigrationPlan — the parts in which a migration copies a blob

`migration_multipart_part_plan` chooses the size of the parts, `multipart_plan_for_dry_run` judges by it the largest blob
that is missing in the target, and the loop of `copy_blob_multipart` uploads the parts. The plan of a smaller blob has
parts that are no larger, so the dry run is right for every blob (`dryRun_sound`). The parts are numbered with an `i32`,
which the plan does not look at: the loop ends well as long as there are fewer than `2 ^ 31 - 1` parts
(`migration_plan_sound`).
-/

namespace AsterDrive.Storage.MigrationPlan

open Checked Upload.MultipartPlan

def migrationMultipartMinPartSize : ℤ := 5 * 1024 * 1024
def migrationMultipartPreferredMaxPartSize : ℤ := 64 * 1024 * 1024
def migrationMultipartHeapBudget : ℤ := 64 * 1024 * 1024

structure MigrationMultipartPartPlan where
  partSize : ℤ
  partCount : ℤ
  providerMaxParts : ℤ
  providerMaxPartSize : Option ℤ
  uploadMode : MultipartUploadMode
  canStart : Bool
  deriving DecidableEq

def internal (message : String) : AsterError := .internalError { message }

/-- `i64::try_from`. -/
def tryFrom (n : ℕ) (message : String) : Arith ℤ :=
  if (n : ℤ) < 2 ^ 63 then .ok n else reject (internal message)

/-- `x.checked_add(d - 1)? / d`, and `zero` where `x` is zero. -/
def checkedCeil (x d zero : ℤ) (message : String) : Arith ℤ :=
  if x = 0 then .ok zero
  else do
    let others ← signed 63 (d - 1)
    demand (InRange 63 (x + others)) (internal message)
    pure ((x + others) / d)

/-- `configured_part_size.clamp(..).max(min_part_size)`. -/
def clampPartSize (configuredPartSize minPartSize : ℤ) : ℤ :=
  max (max migrationMultipartMinPartSize (min configuredPartSize migrationMultipartPreferredMaxPartSize)) minPartSize

def providerMaxPartSize (capabilities : MultipartStorageCapabilities) : Arith (Option ℤ) :=
  match capabilities.maxPartSize with
  | none => .ok none
  | some size => do pure (some (← tryFrom size "storage migration provider max part size exceeds i64 range"))

/-- `provider_size_ok`. -/
def providerSizeOk (maxPartSize : Option ℤ) (partSize : ℤ) : Bool := maxPartSize.all fun limit => decide (partSize ≤ limit)

/-- `reader_size_ok`. -/
def readerSizeOk (mode : MultipartUploadMode) (partSize : ℤ) : Bool :=
  match mode with
  | .nativeStreaming => true
  | .buffered maxSize => decide ((maxSize : ℤ) < 2 ^ 63 ∧ partSize ≤ min (maxSize : ℤ) migrationMultipartHeapBudget)

/-- `provider_object_size_ok`. -/
def providerObjectSizeOk (capabilities : MultipartStorageCapabilities) (blobSize : ℤ) : Bool :=
  capabilities.maxObjectSize.all fun limit : ℕ => decide (blobSize ≤ (limit : ℤ))

def migrationMultipartPartPlan (blobSize configuredPartSize : ℤ) (capabilities : MultipartStorageCapabilities) :
    Arith MigrationMultipartPartPlan := do
  demand (¬ blobSize < 0) (internal ("storage migration blob size cannot be negative: " ++ toString blobSize))
  let maxParts ← tryFrom capabilities.maxParts "storage migration multipart max parts exceeds i64 range"
  demand (¬ maxParts ≤ 0)
    (.validationError { message := "storage migration multipart provider max parts must be positive" })
  let minPartSize ← tryFrom capabilities.minPartSize "storage migration multipart minimum part size exceeds i64 range"
  let configured := clampPartSize configuredPartSize minPartSize
  let countLimited ← checkedCeil blobSize maxParts configured "storage migration multipart size overflow"
  let partSize := max configured countLimited
  let partCount ← checkedCeil blobSize partSize 0 "storage migration multipart part count overflow"
  let providerMax ← providerMaxPartSize capabilities
  pure { partSize, partCount, providerMaxParts := maxParts, providerMaxPartSize := providerMax,
         uploadMode := capabilities.uploadMode
         canStart := decide (partCount ≤ maxParts) && providerSizeOk providerMax partSize &&
           readerSizeOk capabilities.uploadMode partSize && providerObjectSizeOk capabilities blobSize }

inductive MultipartBlockReason
  | providerObjectSize | bufferedHeapBudget | providerLimits

/-- `StoragePolicyMigrationMultipartPlan`. -/
structure DryRunPlan where
  blobSize : ℤ
  plan : MigrationMultipartPartPlan
  heapBudget : ℤ
  canStart : Bool
  reason : Option MultipartBlockReason

def blockReason (blobSize : ℤ) (capabilities : MultipartStorageCapabilities) (plan : MigrationMultipartPartPlan) :
    MultipartBlockReason :=
  if ¬ providerObjectSizeOk capabilities blobSize then .providerObjectSize
  else if plan.uploadMode ≠ .nativeStreaming ∧ plan.partSize > migrationMultipartHeapBudget then .bufferedHeapBudget
  else .providerLimits

def multipartPlanForDryRun (blobSize configuredPartSize : ℤ) (capabilities : MultipartStorageCapabilities) :
    Arith (Option DryRunPlan) :=
  if blobSize ≤ 0 then .ok none
  else do
    let plan ← migrationMultipartPartPlan blobSize configuredPartSize capabilities
    let canStart := plan.canStart || !decide (blobSize > plan.partSize)
    pure (some { blobSize, plan, heapBudget := migrationMultipartHeapBudget, canStart
                 reason := if canStart then none else some (blockReason blobSize capabilities plan) })

def shouldUseMultipartMigration (blobSize configuredPartSize : ℤ) (capabilities : MultipartStorageCapabilities) :
    Arith Bool := do
  let plan ← migrationMultipartPartPlan blobSize configuredPartSize capabilities
  pure (decide (blobSize > plan.partSize))

/-- What `upload_multipart_part_with_retry` is called with. -/
structure Part where
  partNumber : ℤ
  offset : ℤ
  size : ℤ

/-- The loop of `copy_blob_multipart`: the parts that were uploaded with their etags, and how it ended. It is `none` where
`rounds` do not suffice. -/
def uploadParts (partSize : ℤ) (upload : Part → Except AsterError String) :
    ℕ → ℤ → ℤ → ℤ → Option (List (Part × String) × Except AsterError Unit)
  | 0, _, _, _ => none
  | rounds + 1, remaining, offset, partNumber =>
    if 0 < remaining then
      let part : Part := ⟨partNumber, offset, min remaining partSize⟩
      match upload part with
      | .error e => some ([], .error e)
      | .ok etag =>
        if ¬ InRange 63 (offset + part.size) then
          some ([(part, etag)], .error (internal "storage migration source range offset overflow"))
        else if ¬ InRange 31 (partNumber + 1) then
          some ([(part, etag)], .error (internal "storage migration multipart part number overflow"))
        else
          (uploadParts partSize upload rounds (remaining - part.size) (offset + part.size) (partNumber + 1)).map fun rest =>
            ((part, etag) :: rest.1, rest.2)
    else some ([], .ok ())

/-! ### The plan -/

section

variable {blobSize largest configuredPartSize x y d zero q : ℤ} {capabilities : MultipartStorageCapabilities}
variable {plan : MigrationMultipartPartPlan} {n : ℕ} {message : String}

/-- The number of parts of size `d` that hold `x`. -/
def ceil (x d : ℤ) : ℤ := (x + (d - 1)) / d

theorem ceil_mul (hd : 0 < d) : x ≤ ceil x d * d ∧ ceil x d * d < x + d := by
  have hdiv := Int.ediv_mul_add_emod (x + (d - 1)) d
  have hnonneg := Int.emod_nonneg (x + (d - 1)) hd.ne'
  have hlt := Int.emod_lt_of_pos (x + (d - 1)) hd
  unfold ceil
  omega

theorem ceil_le_iff (hd : 0 < d) : ceil x d ≤ q ↔ x ≤ q * d := by
  unfold ceil
  rw [← Int.lt_add_one_iff, Int.ediv_lt_iff_lt_mul hd, Int.add_mul, Int.one_mul]
  omega

theorem ceil_mono (hd : 0 < d) (h : x ≤ y) : ceil x d ≤ ceil y d := Int.ediv_le_ediv hd (by omega)

theorem ceil_pos (hx : 0 < x) (hd : 0 < d) : 0 < ceil x d := by
  by_contra hle
  have hzero := (ceil_le_iff hd).mp (not_lt.mp hle)
  omega

theorem tryFrom_ok : tryFrom n message = .ok q ↔ (n : ℤ) < 2 ^ 63 ∧ (n : ℤ) = q := by
  unfold tryFrom reject
  split_ifs with h
  · exact ⟨fun hq => ⟨h, Except.ok.inj hq⟩, fun hq => congrArg _ hq.2⟩
  · exact ⟨(nomatch ·), fun hq => absurd hq.1 h⟩

theorem checkedCeil_ok (hd : 0 < d) (hlimit : d < 2 ^ 63) (hx : 0 ≤ x) :
    checkedCeil x d zero message = .ok q ↔ (x ≠ 0 → x + (d - 1) < 2 ^ 63) ∧ (if x = 0 then zero else ceil x d) = q := by
  unfold checkedCeil
  by_cases h : x = 0
  · simp [h]
  · have hothers : InRange 63 (d - 1) := ⟨by omega, by omega⟩
    have hrange : InRange 63 (x + (d - 1)) ↔ x + (d - 1) < 2 ^ 63 := ⟨fun h => h.2, fun h => ⟨by omega, h⟩⟩
    simp only [if_neg h, bind_ok_iff, signed_ok, pure_ok_iff]
    constructor
    · rintro ⟨_, ⟨-, rfl⟩, ⟨⟩, hsum, rfl⟩
      exact ⟨fun _ => hrange.mp (demand_ok.mp hsum), rfl⟩
    · rintro ⟨hsum, rfl⟩
      exact ⟨_, ⟨hothers, rfl⟩, (), demand_of (hrange.mpr (hsum h)), rfl⟩

/-- The size of the parts. -/
def partSizeOf (blobSize configuredPartSize : ℤ) (capabilities : MultipartStorageCapabilities) : ℤ :=
  max (clampPartSize configuredPartSize capabilities.minPartSize)
    (if blobSize = 0 then clampPartSize configuredPartSize capabilities.minPartSize else ceil blobSize capabilities.maxParts)

def planOf (blobSize configuredPartSize : ℤ) (capabilities : MultipartStorageCapabilities) : MigrationMultipartPartPlan :=
  let partSize := partSizeOf blobSize configuredPartSize capabilities
  let partCount := if blobSize = 0 then 0 else ceil blobSize partSize
  let providerMax := capabilities.maxPartSize.map Int.ofNat
  { partSize, partCount, providerMaxParts := capabilities.maxParts, providerMaxPartSize := providerMax,
    uploadMode := capabilities.uploadMode
    canStart := decide (partCount ≤ capabilities.maxParts) && providerSizeOk providerMax partSize &&
      readerSizeOk capabilities.uploadMode partSize && providerObjectSizeOk capabilities blobSize }

/-- There is a plan. -/
structure Plannable (blobSize configuredPartSize : ℤ) (capabilities : MultipartStorageCapabilities) : Prop where
  size : 0 ≤ blobSize
  parts : 0 < capabilities.maxParts ∧ (capabilities.maxParts : ℤ) < 2 ^ 63
  minPartSize : (capabilities.minPartSize : ℤ) < 2 ^ 63
  maxPartSize : ∀ size ∈ capabilities.maxPartSize, (size : ℤ) < 2 ^ 63
  counted : blobSize ≠ 0 → blobSize + (capabilities.maxParts - 1) < 2 ^ 63
  divided : blobSize ≠ 0 → blobSize + (partSizeOf blobSize configuredPartSize capabilities - 1) < 2 ^ 63

theorem clampPartSize_bounds : migrationMultipartMinPartSize ≤ clampPartSize x y ∧ y ≤ clampPartSize x y ∧
    clampPartSize x y ≤ max migrationMultipartPreferredMaxPartSize y := by
  unfold clampPartSize migrationMultipartMinPartSize migrationMultipartPreferredMaxPartSize
  omega

theorem providerMaxPartSize_ok {limit : Option ℤ} : providerMaxPartSize capabilities = .ok limit ↔
    (∀ size ∈ capabilities.maxPartSize, (size : ℤ) < 2 ^ 63) ∧ capabilities.maxPartSize.map Int.ofNat = limit := by
  unfold providerMaxPartSize
  cases capabilities.maxPartSize with
  | none => simp
  | some size =>
    simp only [bind_ok_iff, tryFrom_ok, pure_ok_iff, Option.mem_some_iff, forall_eq', Option.map_some]
    constructor
    · rintro ⟨_, ⟨hsize, rfl⟩, hlimit⟩
      exact ⟨hsize, hlimit⟩
    · exact fun ⟨hsize, hlimit⟩ => ⟨_, ⟨hsize, rfl⟩, hlimit⟩

theorem partSizeOf_pos : 0 < partSizeOf blobSize configuredPartSize capabilities := by
  have hclamp := (@clampPartSize_bounds configuredPartSize capabilities.minPartSize).1
  unfold migrationMultipartMinPartSize at hclamp
  unfold partSizeOf
  omega

theorem ceil_le_self (hx : 0 ≤ x) (hd : 0 < d) : ceil x d ≤ x := (ceil_le_iff hd).mpr (by nlinarith)

theorem partSizeOf_lt (hx : 0 ≤ blobSize) (hlt : blobSize < 2 ^ 63) (hparts : 0 < capabilities.maxParts)
    (hmin : (capabilities.minPartSize : ℤ) < 2 ^ 63) :
    partSizeOf blobSize configuredPartSize capabilities < 2 ^ 63 := by
  have hclamp := (@clampPartSize_bounds configuredPartSize capabilities.minPartSize).2.2
  have hceil := @ceil_le_self blobSize capabilities.maxParts hx (by omega)
  unfold migrationMultipartPreferredMaxPartSize at hclamp
  unfold partSizeOf
  split_ifs
  all_goals omega

theorem plan_ok_iff (hrange : blobSize < 2 ^ 63) : migrationMultipartPartPlan blobSize configuredPartSize capabilities = .ok plan ↔
    Plannable blobSize configuredPartSize capabilities ∧ planOf blobSize configuredPartSize capabilities = plan := by
  simp only [migrationMultipartPartPlan, bind_ok_iff, tryFrom_ok, pure_ok_iff, providerMaxPartSize_ok]
  constructor
  · rintro ⟨⟨⟩, hsize, _, ⟨hparts, rfl⟩, ⟨⟩, hpositive, _, ⟨hmin, rfl⟩, _, hcount, _, hdivide, _, ⟨hmax, rfl⟩, rfl⟩
    rw [demand_ok] at hsize hpositive
    obtain ⟨hcounted, rfl⟩ := (checkedCeil_ok (by omega) hparts (by omega)).mp hcount
    have hlt := @partSizeOf_lt blobSize configuredPartSize capabilities (by omega) hrange (by omega) hmin
    obtain ⟨hdivided, rfl⟩ := (checkedCeil_ok (@partSizeOf_pos blobSize configuredPartSize capabilities) hlt
      (by omega)).mp hdivide
    exact ⟨⟨by omega, ⟨by omega, hparts⟩, hmin, hmax, hcounted, hdivided⟩, rfl⟩
  · rintro ⟨h, rfl⟩
    have hparts := h.parts
    have hlt := @partSizeOf_lt blobSize configuredPartSize capabilities h.size hrange hparts.1 h.minPartSize
    exact ⟨(), demand_of (not_lt.mpr h.size), _, ⟨hparts.2, rfl⟩, (), demand_of (by omega), _, ⟨h.minPartSize, rfl⟩, _,
      (checkedCeil_ok (by omega) hparts.2 h.size).mpr ⟨h.counted, rfl⟩, _,
      (checkedCeil_ok partSizeOf_pos hlt h.size).mpr ⟨h.divided, rfl⟩, _, ⟨h.maxPartSize, rfl⟩, rfl⟩

/-! ### A smaller blob -/

theorem partSizeOf_mono (hx : 0 < blobSize) (h : blobSize ≤ largest) (hparts : 0 < capabilities.maxParts) :
    partSizeOf blobSize configuredPartSize capabilities ≤ partSizeOf largest configuredPartSize capabilities := by
  have hceil := @ceil_mono blobSize largest capabilities.maxParts (by omega) h
  unfold partSizeOf
  rw [if_neg hx.ne', if_neg (by omega)]
  exact max_le_max le_rfl hceil

theorem partCount_le (hx : 0 < blobSize) (hparts : 0 < capabilities.maxParts) :
    ceil blobSize (partSizeOf blobSize configuredPartSize capabilities) ≤ capabilities.maxParts := by
  rw [ceil_le_iff partSizeOf_pos]
  have hmul := (@ceil_mul blobSize capabilities.maxParts (by omega)).1
  have hsize : ceil blobSize capabilities.maxParts ≤ partSizeOf blobSize configuredPartSize capabilities := by
    unfold partSizeOf
    rw [if_neg hx.ne']
    exact le_max_right _ _
  have hscale := Int.mul_le_mul_of_nonneg_left hsize (Int.natCast_nonneg capabilities.maxParts)
  rw [Int.mul_comm (ceil _ _)] at hmul
  omega

theorem Plannable.smaller (h : Plannable largest configuredPartSize capabilities) (hx : 0 < blobSize) (hle : blobSize ≤ largest) :
    Plannable blobSize configuredPartSize capabilities := by
  have hmono := @partSizeOf_mono blobSize largest configuredPartSize capabilities hx hle h.parts.1
  have hcounted := h.counted (by omega)
  have hdivided := h.divided (by omega)
  exact ⟨by omega, h.parts, h.minPartSize, h.maxPartSize, fun _ => by omega, fun _ => by omega⟩

theorem readerSizeOk_buffered : readerSizeOk (.buffered n) x = true ↔
    (n : ℤ) < 2 ^ 63 ∧ x ≤ min (n : ℤ) migrationMultipartHeapBudget := by
  unfold readerSizeOk
  rw [decide_eq_true_eq]

theorem readerSizeOk_mono {mode : MultipartUploadMode} (h : readerSizeOk mode y = true) (hle : x ≤ y) :
    readerSizeOk mode x = true := by
  cases mode with
  | nativeStreaming => exact h
  | buffered maxSize =>
    rw [readerSizeOk_buffered] at h ⊢
    exact ⟨h.1, hle.trans h.2⟩

theorem all_le_mono {α : Type} {limit : Option α} {value : α → ℤ} (h : limit.all (fun l => decide (y ≤ value l)) = true)
    (hle : x ≤ y) : limit.all (fun l => decide (x ≤ value l)) = true := by
  cases limit with
  | none => rfl
  | some l =>
    simp only [Option.all_some, decide_eq_true_eq] at h ⊢
    omega

theorem canStart_mono (hx : 0 < blobSize) (hle : blobSize ≤ largest) (hparts : 0 < capabilities.maxParts)
    (h : (planOf largest configuredPartSize capabilities).canStart = true) :
    (planOf blobSize configuredPartSize capabilities).canStart = true := by
  have hmono := @partSizeOf_mono blobSize largest configuredPartSize capabilities hx hle hparts
  simp only [planOf, Bool.and_eq_true, decide_eq_true_eq, if_neg hx.ne'] at h ⊢
  obtain ⟨⟨⟨-, hprovider⟩, hreader⟩, hobject⟩ := h
  exact ⟨⟨⟨partCount_le hx hparts, all_le_mono hprovider hmono⟩, readerSizeOk_mono hreader hmono⟩, all_le_mono hobject hle⟩

theorem single_part (hx : 0 < blobSize) (hle : blobSize ≤ largest) (hparts : 0 < capabilities.maxParts)
    (h : largest ≤ partSizeOf largest configuredPartSize capabilities) :
    blobSize ≤ partSizeOf blobSize configuredPartSize capabilities := by
  unfold partSizeOf at h ⊢
  rw [if_neg (by omega)] at h ⊢
  have hmul := (@ceil_mul largest capabilities.maxParts (by omega)).2
  have hown := (@ceil_mul blobSize capabilities.maxParts (by omega)).1
  by_cases hone : capabilities.maxParts = 1
  · rw [hone] at hown ⊢
    omega
  · rcases le_max_iff.mp h with hclamp | hceil
    · omega
    · have htwo : (2 : ℤ) ≤ capabilities.maxParts := by omega
      have hlarge : largest = 1 := by nlinarith
      have hclamp := (@clampPartSize_bounds configuredPartSize capabilities.minPartSize).1
      unfold migrationMultipartMinPartSize at hclamp
      omega

/-- **The dry run is right for every blob**, as it judges the largest one. -/
theorem dryRun_sound {dryRun : DryRunPlan} (hlt : largest < 2 ^ 63)
    (h : multipartPlanForDryRun largest configuredPartSize capabilities = .ok (some dryRun)) (hstart : dryRun.canStart = true)
    (hx : 0 < blobSize) (hle : blobSize ≤ largest) :
    shouldUseMultipartMigration blobSize configuredPartSize capabilities = .ok false ∨
      ∃ plan, migrationMultipartPartPlan blobSize configuredPartSize capabilities = .ok plan ∧ plan.canStart = true := by
  rw [multipartPlanForDryRun, if_neg (by omega)] at h
  obtain ⟨whole, hwhole, hdry⟩ := bind_ok h
  cases hdry
  obtain ⟨hplannable, rfl⟩ := (plan_ok_iff hlt).mp hwhole
  have hplan := (plan_ok_iff (by omega)).mpr ⟨hplannable.smaller hx hle, rfl⟩
  rcases Bool.or_eq_true _ _ |>.mp hstart with hcan | hsingle
  · exact .inr ⟨_, hplan, canStart_mono hx hle hplannable.parts.1 hcan⟩
  · have hfits : largest ≤ partSizeOf largest configuredPartSize capabilities := by simpa [planOf] using hsingle
    have hown := single_part hx hle hplannable.parts.1 hfits
    refine .inl (bind_ok_iff.mpr ⟨_, hplan, ?_⟩)
    exact congrArg _ (decide_eq_false (not_lt.mpr hown))

theorem plan_overflow_free (hlt : blobSize < 2 ^ 63) :
    Sound (migrationMultipartPartPlan blobSize configuredPartSize capabilities) := by
  have htry : ∀ n message, Sound (tryFrom n message) := fun n message => by
    unfold tryFrom reject Sound
    split_ifs
    all_goals simp
  have hceil : ∀ x d zero message, 0 < d → d < 2 ^ 63 → Sound (checkedCeil x d zero message) := by
    intro x d zero message hd hlimit
    unfold checkedCeil
    split_ifs
    · exact sound_ok
    · exact bind_sound (sound_signed ⟨by omega, by omega⟩) fun _ _ => bind_sound sound_demand fun _ _ => sound_ok
  refine bind_sound sound_demand fun _ hsize => bind_sound (htry _ _) fun maxParts htried => ?_
  rw [demand_ok] at hsize
  obtain ⟨hparts, rfl⟩ := tryFrom_ok.mp htried
  refine bind_sound sound_demand fun _ hpositive => bind_sound (htry _ _) fun minPartSize htriedMin => ?_
  rw [demand_ok] at hpositive
  obtain ⟨hmin, rfl⟩ := tryFrom_ok.mp htriedMin
  refine bind_sound (hceil _ _ _ _ (by omega) hparts) fun countLimited hcount => ?_
  obtain ⟨-, rfl⟩ := (checkedCeil_ok (by omega) hparts (by omega)).mp hcount
  have hpos := @partSizeOf_pos blobSize configuredPartSize capabilities
  have hsmall := @partSizeOf_lt blobSize configuredPartSize capabilities (by omega) hlt (by omega) hmin
  refine bind_sound (hceil _ _ _ _ hpos hsmall) fun partCount _ => bind_sound ?_ fun _ _ => sound_ok
  unfold providerMaxPartSize
  split
  · exact sound_ok
  · exact bind_sound (htry _ _) fun _ _ => sound_ok

/-! ### The loop -/

/-- The parts follow each other from `offset` to the end of the blob, none of them is empty, and they are numbered from
`partNumber`. -/
def Tiles (blobSize : ℤ) : ℤ → ℤ → List Part → Prop
  | offset, _, [] => offset = blobSize
  | offset, partNumber, part :: rest =>
    part.offset = offset ∧ part.partNumber = partNumber ∧ 0 < part.size ∧
      Tiles blobSize (offset + part.size) (partNumber + 1) rest

theorem ceil_step (hx : 0 < x) (hd : 0 < d) : ceil (x - min x d) d = ceil x d - 1 := by
  have hmul := @ceil_mul x d hd
  apply le_antisymm
  · rw [ceil_le_iff hd, Int.sub_mul]
    have hone := Int.mul_le_mul_of_nonneg_right (ceil_pos hx hd : 1 ≤ ceil x d) hd.le
    omega
  · have hstep := (@ceil_mul (x - min x d) d hd).1
    have hle : ceil x d ≤ ceil (x - min x d) d + 1 := by
      rw [ceil_le_iff hd, Int.add_mul]
      omega
    omega

variable {partSize offset partNumber : ℤ} {upload : Part → Except AsterError String} {parts : List (Part × String)}

theorem uploadParts_tiles (hpart : 0 < partSize) (hlt : blobSize < 2 ^ 63) (hupload : ∀ part, ∃ etag, upload part = .ok etag)
    (k : ℕ) : ∀ {offset partNumber : ℤ}, 0 ≤ offset → offset ≤ blobSize → 0 ≤ partNumber →
      ceil (blobSize - offset) partSize = k → partNumber + k < 2 ^ 31 →
      ∃ parts, (∀ rounds, k < rounds → uploadParts partSize upload rounds (blobSize - offset) offset partNumber = some (parts, .ok ())) ∧
        parts.length = k ∧ Tiles blobSize offset partNumber (parts.map Prod.fst) := by
  induction k with
  | zero =>
    intro offset partNumber hoffset hle _ hceil _
    have hdone := (ceil_le_iff hpart).mp hceil.le
    refine ⟨[], fun rounds hrounds => ?_, rfl, show offset = blobSize by omega⟩
    obtain ⟨rounds, rfl⟩ := Nat.exists_eq_add_of_lt hrounds
    rw [uploadParts, if_neg (by omega)]
  | succ k ih =>
    intro offset partNumber hoffset hle hnumber hceil hfits
    have hrest : 0 < blobSize - offset := by
      by_contra hnone
      have hzero := (@ceil_le_iff (blobSize - offset) partSize 0 hpart).mpr (by omega)
      omega
    have hnext : blobSize - offset - min (blobSize - offset) partSize = blobSize - (offset + min (blobSize - offset) partSize) := by
      omega
    obtain ⟨parts, hrun, hlength, htiles⟩ := @ih (offset + min (blobSize - offset) partSize) (partNumber + 1) (by omega)
      (by omega) (by omega) (by rw [← hnext, ceil_step hrest hpart]; omega) (by omega)
    obtain ⟨etag, hetag⟩ := hupload ⟨partNumber, offset, min (blobSize - offset) partSize⟩
    refine ⟨(⟨partNumber, offset, min (blobSize - offset) partSize⟩, etag) :: parts, fun rounds hrounds => ?_, congrArg (· + 1) hlength, rfl, rfl, lt_min hrest hpart, htiles⟩
    obtain ⟨rounds, rfl⟩ : ∃ n, rounds = n + 1 := ⟨rounds - 1, by omega⟩
    simp only [uploadParts]
    rw [if_pos hrest, hetag]
    dsimp only
    rw [if_neg (not_not.mpr ⟨by omega, by omega⟩), if_neg (not_not.mpr ⟨by omega, by omega⟩), hnext, hrun rounds (by omega)]
    rfl

theorem uploadParts_numbers {rounds : ℕ} {remaining : ℤ} (hnumber : partNumber < 2 ^ 31)
    (h : uploadParts partSize upload rounds remaining offset partNumber = some (parts, .ok ())) :
    partNumber + parts.length < 2 ^ 31 := by
  induction rounds generalizing remaining offset partNumber parts with
  | zero => simp [uploadParts] at h
  | succ rounds ih =>
    simp only [uploadParts] at h
    by_cases hrest : 0 < remaining
    · rw [if_pos hrest] at h
      split at h
      · simp at h
      · split_ifs at h with hoffset hnext
        · obtain ⟨⟨rest, outcome⟩, hrun, heq⟩ := Option.map_eq_some_iff.mp h
          cases heq
          have htail := ih hnext.2 hrun
          simp only [List.length_cons]
          omega
        all_goals simp at h
    · rw [if_neg hrest] at h
      cases h
      simpa using hnumber

/-- The loop uploads as many parts as planned, and they cover the blob. -/
def UploadsExactly (plan : MigrationMultipartPartPlan) (blobSize : ℤ) : Prop :=
  ∀ upload : Part → Except AsterError String, (∀ part, ∃ etag, upload part = .ok etag) → ∃ parts,
    (∀ rounds : ℕ, plan.partCount < rounds → uploadParts plan.partSize upload rounds blobSize 0 1 = some (parts, .ok ())) ∧
      parts.length = plan.partCount ∧ Tiles blobSize 0 1 (parts.map Prod.fst)

/-- **What a plan that can start promises**: sizes and counts within the limits, and a loop that does what was planned, if and
only if the blob fits in the parts that an `i32` can number. -/
theorem plan_uploads (hlt : blobSize < 2 ^ 63)
    (h : migrationMultipartPartPlan blobSize configuredPartSize capabilities = .ok plan) :
    UploadsExactly plan blobSize ↔ blobSize ≤ (2 ^ 31 - 2) * clampPartSize configuredPartSize capabilities.minPartSize ∨
      blobSize ≤ (2 ^ 31 - 2) * ceil blobSize capabilities.maxParts := by
  obtain ⟨hplannable, rfl⟩ := (plan_ok_iff hlt).mp h
  have hpos := @partSizeOf_pos blobSize configuredPartSize capabilities
  have hsize := hplannable.size
  have hcount : (planOf blobSize configuredPartSize capabilities).partCount =
      ceil blobSize (partSizeOf blobSize configuredPartSize capabilities) := by
    show (if blobSize = 0 then 0 else _) = _
    split_ifs with hzero
    · subst hzero
      exact (Int.ediv_eq_zero_of_lt (by omega) (by omega)).symm
    · rfl
  have hfits : (blobSize ≤ (2 ^ 31 - 2) * clampPartSize configuredPartSize capabilities.minPartSize ∨
      blobSize ≤ (2 ^ 31 - 2) * ceil blobSize capabilities.maxParts) ↔
      ceil blobSize (partSizeOf blobSize configuredPartSize capabilities) ≤ 2 ^ 31 - 2 := by
    have hclamp := (@clampPartSize_bounds configuredPartSize capabilities.minPartSize).1
    unfold migrationMultipartMinPartSize at hclamp
    rw [ceil_le_iff hpos]
    unfold partSizeOf
    split_ifs with hzero
    all_goals omega
  constructor
  · intro hall
    obtain ⟨parts, hrun, hlength, -⟩ := hall (fun _ => .ok "") fun _ => ⟨"", rfl⟩
    have hnumbers := uploadParts_numbers (by norm_num) (hrun (parts.length + 1) (by omega))
    omega
  · intro hfew upload hupload
    have hnonneg : 0 ≤ ceil blobSize (partSizeOf blobSize configuredPartSize capabilities) :=
      Int.ediv_nonneg (by omega) hpos.le
    obtain ⟨k, hk⟩ := Int.eq_ofNat_of_zero_le hnonneg
    obtain ⟨parts, hrun, hlength, htiles⟩ := @uploadParts_tiles blobSize _ upload hpos hlt hupload k 0 1 le_rfl hsize
      (by omega) (by rw [Int.sub_zero, hk]) (by omega)
    rw [Int.sub_zero] at hrun
    exact ⟨parts, fun rounds hrounds => hrun rounds (by omega), by rw [hlength, hcount, hk], htiles⟩

theorem plan_limits (hlt : blobSize < 2 ^ 63)
    (h : migrationMultipartPartPlan blobSize configuredPartSize capabilities = .ok plan) (hstart : plan.canStart = true) :
    capabilities.minPartSize ≤ plan.partSize ∧ (∀ limit : ℕ, capabilities.maxPartSize = some limit → plan.partSize ≤ limit) ∧
      (∀ maxSize, capabilities.uploadMode = .buffered maxSize → plan.partSize ≤ min (maxSize : ℤ) migrationMultipartHeapBudget) ∧
      (∀ limit : ℕ, capabilities.maxObjectSize = some limit → blobSize ≤ limit) ∧ plan.partCount ≤ capabilities.maxParts := by
  obtain ⟨-, rfl⟩ := (plan_ok_iff hlt).mp h
  have hclamp := (@clampPartSize_bounds configuredPartSize capabilities.minPartSize).2.1
  simp only [planOf, Bool.and_eq_true, decide_eq_true_eq] at hstart ⊢
  obtain ⟨⟨⟨hcount, hprovider⟩, hreader⟩, hobject⟩ := hstart
  refine ⟨hclamp.trans (le_max_left _ _), fun limit hlimit => ?_, fun maxSize hmode => ?_, fun limit hlimit => ?_, hcount⟩
  · rw [hlimit] at hprovider
    exact of_decide_eq_true hprovider
  · rw [hmode, readerSizeOk_buffered] at hreader
    exact hreader.2
  · rw [providerObjectSizeOk, hlimit] at hobject
    exact of_decide_eq_true hobject

end

/-- A follower that takes `2 ^ 40` parts. -/
def manyParts : MultipartStorageCapabilities where
  minPartSize := 5 * 1024 * 1024
  maxPartSize := none
  maxParts := 2 ^ 40
  maxObjectSize := none
  uploadMode := .nativeStreaming

end AsterDrive.Storage.MigrationPlan
