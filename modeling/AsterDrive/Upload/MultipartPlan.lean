import AsterDrive.Lib.Checked
import AsterDrive.Upload.ProviderRelay

/-!
# Upload.MultipartPlan — the parts of a multipart upload

`plan_multipart_upload_with_capabilities` chooses the size of the parts within the limits of the provider;
`expected_chunk_size_for_upload` and `chunk_start` compute from the session what every part has to be. The parts lie one
after the other and cover the file (`tiles`), and where the provider streams and some part size is within its limits, one
is chosen (`plan_found`). `calc_total_chunks` is a parameter.
-/

namespace AsterDrive.Upload.MultipartPlan

open Int

open Checked ProviderRelay

/-! ### The plan -/

inductive MultipartUploadMode
  | nativeStreaming
  | buffered (maxSize : ℕ)
  deriving DecidableEq

/-- What a provider allows; all of them are `u64`. -/
structure MultipartStorageCapabilities where
  minPartSize : ℕ
  maxPartSize : Option ℕ
  maxParts : ℕ
  maxObjectSize : Option ℕ
  uploadMode : MultipartUploadMode

structure MultipartUploadPlan where
  chunkSize : ℤ
  totalChunks : ℤ
  deriving DecidableEq

abbrev Arith := Except (Failure AsterError)

def planError (message : String) : AsterError := .validationError { message }

/-- `i64::try_from` of a limit. -/
def providerInteger (n : ℕ) (message : String) : Except AsterError ℤ :=
  if (n : ℤ) < 2 ^ 63 then .ok n else .error (planError message)

def providerMaxPartSize (capabilities : MultipartStorageCapabilities) (context : String) :
    Except AsterError (Option ℤ) :=
  match capabilities.maxPartSize with
  | none => .ok none
  | some size =>
    (providerInteger size (context ++ " provider maximum part size exceeds the supported integer range")).map some

/-- `checked_add` and then the division. -/
def countLimitedChunkSize (totalSize maxParts minPartSize : ℤ) (context : String) : Arith ℤ :=
  if totalSize = 0 then .ok minPartSize
  else do
    let others ← signed 63 (maxParts - 1)
    demand (InRange 63 (totalSize + others)) (planError (context ++ " total_size is too large for provider part planning"))
    pure ((totalSize + others) / maxParts)

/-- The configured size within the limits. -/
def clampChunkSize (configuredChunkSize minPartSize : ℤ) (maxPartSize : Option ℤ) : ℤ :=
  min (max configuredChunkSize minPartSize) (maxPartSize.getD (2 ^ 63 - 1))

def checkBuffered (mode : MultipartUploadMode) (chunkSize : ℤ) (context : String) : Except AsterError Unit :=
  match mode with
  | .nativeStreaming => .ok ()
  | .buffered size =>
    match providerInteger size (context ++ " buffered reader maximum size exceeds the supported integer range") with
    | .error e => .error e
    | .ok maxSize =>
      if chunkSize > maxSize then
        .error (planError (context ++ " requires chunk size " ++ toString chunkSize ++
          ", exceeding buffered reader maximum " ++ toString maxSize))
      else .ok ()

def planMultipartUpload (calcTotalChunks : ℤ → ℤ → String → Except AsterError ℤ) (totalSize configuredChunkSize : ℤ)
    (capabilities : MultipartStorageCapabilities) (context : String) : Arith MultipartUploadPlan := do
  demand (¬ totalSize < 0) (planError (context ++ " total_size cannot be negative: " ++ toString totalSize))
  let maxParts ← lift (providerInteger capabilities.maxParts
    (context ++ " provider max parts exceeds the supported integer range"))
  demand (¬ maxParts ≤ 0) (planError (context ++ " provider max parts must be positive"))
  let minPartSize ← lift (providerInteger capabilities.minPartSize
    (context ++ " provider minimum part size exceeds the supported integer range"))
  demand (¬ minPartSize ≤ 0) (planError (context ++ " provider minimum part size must be positive"))
  let maxPartSize ← lift (providerMaxPartSize capabilities context)
  demand (¬ ∃ most ∈ maxPartSize, minPartSize > most) (planError (context ++ " provider minimum part size " ++
    toString minPartSize ++ " exceeds maximum part size " ++ toString (maxPartSize.getD 0)))
  let countLimited ← countLimitedChunkSize totalSize maxParts minPartSize context
  let chunkSize := max (clampChunkSize configuredChunkSize minPartSize maxPartSize) countLimited
  let totalChunks ← lift (calcTotalChunks totalSize chunkSize context)
  demand (¬ ∃ most ∈ maxPartSize, chunkSize > most) (planError (context ++ " requires chunk size " ++ toString chunkSize ++
    ", exceeding provider maximum part size " ++ toString (maxPartSize.getD 0)))
  demand (¬ totalChunks > maxParts) (planError (context ++ " requires " ++ toString totalChunks ++
    " parts, exceeding provider maximum " ++ toString maxParts))
  demand (¬ ∃ most ∈ capabilities.maxObjectSize, totalSize > most) (planError (context ++ " total size " ++
    toString totalSize ++ " exceeds provider maximum object size " ++ toString (capabilities.maxObjectSize.getD 0)))
  lift (checkBuffered capabilities.uploadMode chunkSize context)
  pure ⟨chunkSize, totalChunks⟩

/-! ### The parts of a session -/

/-- `expected_chunk_size_for_upload`, with the range of every operation. -/
def expectedChunkSize (s : UploadSession) (chunkNumber : ℤ) : Arith ℤ :=
  if s.totalChunks ≤ 0 ∨ s.chunkSize ≤ 0 then
    reject (.chunkUploadFailed
      { message := "invalid upload session chunk metadata: total_chunks=" ++ toString s.totalChunks
          ++ ", chunk_size=" ++ toString s.chunkSize
        apiCode := some .uploadChunkSessionInvalid })
  else do
    let last ← signed 31 (s.totalChunks - 1)
    if chunkNumber < last then pure s.chunkSize
    else do
      let preceding ← signed 63 (s.chunkSize * last)
      let expected ← signed 63 (s.totalSize - preceding)
      if expected ≤ 0 then
        reject (.chunkUploadFailed
          { message := "invalid final chunk size for upload " ++ s.id ++ ": total_size="
              ++ toString s.totalSize ++ ", preceding=" ++ toString preceding
            apiCode := some .uploadChunkSessionInvalid })
      else pure expected

/-- `total / chunk`, rounded up. -/
def ceilDiv (total chunk : ℤ) : ℤ := (total + chunk - 1) / chunk

/-- What the count of parts is assumed to be: rounded up, if it is an `i32`. -/
structure CountsParts (calcTotalChunks : ℤ → ℤ → String → Except AsterError ℤ) : Prop where
  count : ∀ total chunk context, 0 < total → 0 < chunk → ceilDiv total chunk < 2 ^ 31 →
    calcTotalChunks total chunk context = .ok (ceilDiv total chunk)
  tooMany : ∀ total chunk context, 0 < total → 0 < chunk → 2 ^ 31 ≤ ceilDiv total chunk →
    ∃ e, calcTotalChunks total chunk context = .error e

/-- The size that the plan tries. -/
def triedChunkSize (totalSize configuredChunkSize : ℤ) (capabilities : MultipartStorageCapabilities) : ℤ :=
  max (clampChunkSize configuredChunkSize capabilities.minPartSize (capabilities.maxPartSize.map Nat.cast))
    ((totalSize + (capabilities.maxParts - 1)) / capabilities.maxParts)

/-- Parts of this size are within the limits of the provider. -/
structure Allowed (totalSize : ℤ) (capabilities : MultipartStorageCapabilities) (chunkSize : ℤ) : Prop where
  positive : 0 < chunkSize
  small : chunkSize < 2 ^ 63
  least : (capabilities.minPartSize : ℤ) ≤ chunkSize
  most : ∀ most ∈ capabilities.maxPartSize, chunkSize ≤ most
  count : ceilDiv totalSize chunkSize ≤ capabilities.maxParts
  object : ∀ most ∈ capabilities.maxObjectSize, totalSize ≤ most

section

variable {countParts : ℤ → ℤ → String → Except AsterError ℤ} {totalSize configured chunk n : ℤ}
variable {capabilities : MultipartStorageCapabilities} {context : String} {plan : MultipartUploadPlan}

/-! ### Rounding up -/

theorem ceilDiv_spec (totalSize : ℤ) (hchunk : 0 < chunk) :
    (ceilDiv totalSize chunk - 1) * chunk < totalSize ∧ totalSize ≤ ceilDiv totalSize chunk * chunk := by
  unfold ceilDiv
  have hdiv := mul_ediv_add_emod (totalSize + chunk - 1) chunk
  have hnonneg := emod_nonneg (totalSize + chunk - 1) (ne_of_gt hchunk)
  have hlt := emod_lt_of_pos (totalSize + chunk - 1) hchunk
  have hcomm : (totalSize + chunk - 1) / chunk * chunk = chunk * ((totalSize + chunk - 1) / chunk) := mul_comm _ _
  rw [sub_mul, hcomm, one_mul]
  omega

theorem ceilDiv_le_iff (hchunk : 0 < chunk) : ceilDiv totalSize chunk ≤ n ↔ totalSize ≤ n * chunk := by
  obtain ⟨hlow, hhigh⟩ := ceilDiv_spec totalSize hchunk
  constructor
  · intro hle
    exact Int.le_trans hhigh (Int.mul_le_mul_of_nonneg_right hle (Int.le_of_lt hchunk))
  · intro hle
    by_contra hgt
    have hmore : n ≤ ceilDiv totalSize chunk - 1 := by omega
    have := Int.mul_le_mul_of_nonneg_right hmore (Int.le_of_lt hchunk)
    omega

theorem ceilDiv_pos (htotal : 0 < totalSize) (hchunk : 0 < chunk) : 0 < ceilDiv totalSize chunk := by
  by_contra hle
  have h := (ceilDiv_le_iff hchunk).mp (not_lt.mp hle)
  omega

/-! ### What a plan says -/

theorem providerInteger_ok {size : ℕ} {message : String} :
    providerInteger size message = .ok n ↔ (size : ℤ) < 2 ^ 63 ∧ n = size := by
  unfold providerInteger
  constructor
  · intro h
    split_ifs at h with hlt
    exact ⟨hlt, (Except.ok.inj h).symm⟩
  · rintro ⟨hlt, rfl⟩
    exact if_pos hlt

theorem providerMaxPartSize_ok {most : Option ℤ} : providerMaxPartSize capabilities context = .ok most ↔
      (∀ size ∈ capabilities.maxPartSize, (size : ℤ) < 2 ^ 63) ∧ most = capabilities.maxPartSize.map Nat.cast := by
  unfold providerMaxPartSize
  cases capabilities.maxPartSize with
  | none =>
    constructor
    · intro h
      exact ⟨(fun _ hmem => nomatch hmem), (Except.ok.inj h).symm⟩
    · rintro ⟨-, rfl⟩
      rfl
  | some size =>
    rw [mapped_ok_iff]
    constructor
    · rintro ⟨n, hn, rfl⟩
      obtain ⟨hlt, rfl⟩ := (providerInteger_ok).mp hn
      refine ⟨fun size' hmem => ?_, rfl⟩
      rw [← Option.some.inj hmem]
      exact hlt
    · rintro ⟨hlt, rfl⟩
      exact ⟨size, (providerInteger_ok).mpr ⟨hlt size rfl, rfl⟩, rfl⟩

theorem countLimitedChunkSize_ok {maxParts minPartSize : ℤ} (htotal : 0 < totalSize) :
    countLimitedChunkSize totalSize maxParts minPartSize context = .ok n ↔
      InRange 63 (maxParts - 1) ∧ InRange 63 (totalSize + (maxParts - 1)) ∧ n = (totalSize + (maxParts - 1)) / maxParts := by
  unfold countLimitedChunkSize
  rw [if_neg (ne_of_gt htotal)]
  constructor
  · intro h
    obtain ⟨others, hothers, h⟩ := bind_ok h
    obtain ⟨⟨⟩, hdemand, h⟩ := bind_ok h
    obtain ⟨hrange, rfl⟩ := signed_ok.mp hothers
    exact ⟨hrange, demand_ok.mp hdemand, (Except.ok.inj h).symm⟩
  · rintro ⟨hothers, hsum, rfl⟩
    exact bind_ok_iff.mpr ⟨_, signed_ok.mpr ⟨hothers, rfl⟩, bind_ok_iff.mpr ⟨(), demand_ok.mpr hsum, rfl⟩⟩

/-- What the plan checks of the limits, before it computes. -/
structure Sensible (capabilities : MultipartStorageCapabilities) : Prop where
  maxParts : 0 < capabilities.maxParts ∧ (capabilities.maxParts : ℤ) < 2 ^ 63
  minPartSize : 0 < capabilities.minPartSize ∧ (capabilities.minPartSize : ℤ) < 2 ^ 63
  maxPartSize : ∀ most ∈ capabilities.maxPartSize, (most : ℤ) < 2 ^ 63 ∧ capabilities.minPartSize ≤ most

/-- What it checks after it has chosen. -/
structure Chosen (countParts : ℤ → ℤ → String → Except AsterError ℤ) (totalSize configured : ℤ)
    (capabilities : MultipartStorageCapabilities) (context : String) (plan : MultipartUploadPlan) : Prop where
  sensible : Sensible capabilities
  sum : InRange 63 (totalSize + (capabilities.maxParts - 1))
  size : plan.chunkSize = triedChunkSize totalSize configured capabilities
  count : countParts totalSize plan.chunkSize context = .ok plan.totalChunks
  most : ∀ most ∈ capabilities.maxPartSize, plan.chunkSize ≤ most
  parts : plan.totalChunks ≤ capabilities.maxParts
  object : ∀ most ∈ capabilities.maxObjectSize, totalSize ≤ most
  buffered : checkBuffered capabilities.uploadMode plan.chunkSize context = .ok ()

theorem exists_cast {sizes : Option ℕ} {p : ℤ → Prop} :
    (¬ ∃ most ∈ sizes.map (Nat.cast : ℕ → ℤ), p most) ↔ ∀ most ∈ sizes, ¬ p most := by
  cases sizes with
  | none | some size => simp

/-- **The spec of the plan.** -/
theorem planMultipartUpload_ok (htotal : 0 < totalSize) :
    planMultipartUpload countParts totalSize configured capabilities context = .ok plan ↔
      Chosen countParts totalSize configured capabilities context plan := by
  constructor
  · intro h
    obtain ⟨⟨⟩, -, h⟩ := bind_ok h
    obtain ⟨maxParts, hparts, h⟩ := bind_ok h
    obtain ⟨hpartsLt, rfl⟩ := (providerInteger_ok).mp (lift_ok.mp hparts)
    obtain ⟨⟨⟩, hpartsPos, h⟩ := bind_ok h
    obtain ⟨minPartSize, hmin, h⟩ := bind_ok h
    obtain ⟨hminLt, rfl⟩ := (providerInteger_ok).mp (lift_ok.mp hmin)
    obtain ⟨⟨⟩, hminPos, h⟩ := bind_ok h
    obtain ⟨maxPartSize, hmost, h⟩ := bind_ok h
    obtain ⟨hmostLt, rfl⟩ := (providerMaxPartSize_ok).mp (lift_ok.mp hmost)
    obtain ⟨⟨⟩, hordered, h⟩ := bind_ok h
    obtain ⟨countLimited, hcount, h⟩ := bind_ok h
    obtain ⟨-, hsum, rfl⟩ := (countLimitedChunkSize_ok htotal).mp hcount
    obtain ⟨totalChunks, hchunks, h⟩ := bind_ok h
    obtain ⟨⟨⟩, hsize, h⟩ := bind_ok h
    obtain ⟨⟨⟩, hnumber, h⟩ := bind_ok h
    obtain ⟨⟨⟩, hobject, h⟩ := bind_ok h
    obtain ⟨⟨⟩, hbuffered, h⟩ := bind_ok h
    cases h
    have hpartsPos := demand_ok.mp hpartsPos
    have hminPos := demand_ok.mp hminPos
    have hordered := (exists_cast).mp (demand_ok.mp hordered)
    refine ⟨⟨⟨by omega, hpartsLt⟩, ⟨by omega, hminLt⟩, fun most hmem => ⟨hmostLt most hmem, ?_⟩⟩, hsum, rfl,
      lift_ok.mp hchunks, fun most hmem => ?_, not_lt.mp (demand_ok.mp hnumber), fun most hmem => ?_,
      lift_ok.mp hbuffered⟩
    · have := hordered most hmem
      omega
    · exact not_lt.mp ((exists_cast).mp (demand_ok.mp hsize) most hmem)
    · exact not_lt.mp fun hgt => demand_ok.mp hobject ⟨most, hmem, hgt⟩
  · rintro ⟨⟨⟨hpartsPos, hpartsLt⟩, ⟨hminPos, hminLt⟩, hmost⟩, hsum, hsize, hchunks, hle, hnumber, hobject, hbuffered⟩
    obtain ⟨chunkSize, totalChunks⟩ := plan
    subst hsize
    have hpartsRange : InRange 63 ((capabilities.maxParts : ℤ) - 1) := ⟨by omega, by omega⟩
    refine bind_ok_iff.mpr ⟨(), demand_of (by omega), ?_⟩
    refine bind_ok_iff.mpr ⟨_, lift_ok.mpr ((providerInteger_ok).mpr ⟨hpartsLt, rfl⟩), ?_⟩
    refine bind_ok_iff.mpr ⟨(), demand_of (by omega), ?_⟩
    refine bind_ok_iff.mpr ⟨_, lift_ok.mpr ((providerInteger_ok).mpr ⟨hminLt, rfl⟩), ?_⟩
    refine bind_ok_iff.mpr ⟨(), demand_of (by omega), ?_⟩
    refine bind_ok_iff.mpr ⟨_, lift_ok.mpr ((providerMaxPartSize_ok).mpr ⟨fun most hmem => (hmost most hmem).1, rfl⟩), ?_⟩
    refine bind_ok_iff.mpr ⟨(), demand_of ((exists_cast).mpr fun most hmem => ?_), ?_⟩
    · have := (hmost most hmem).2
      omega
    refine bind_ok_iff.mpr ⟨_, (countLimitedChunkSize_ok htotal).mpr ⟨hpartsRange, hsum, rfl⟩, ?_⟩
    refine bind_ok_iff.mpr ⟨_, lift_ok.mpr hchunks, ?_⟩
    refine bind_ok_iff.mpr ⟨(), demand_of ((exists_cast).mpr fun most hmem => not_lt.mpr (hle most hmem)), ?_⟩
    refine bind_ok_iff.mpr ⟨(), demand_of (not_lt.mpr hnumber), ?_⟩
    refine bind_ok_iff.mpr ⟨(), demand_of fun ⟨most, hmem, hgt⟩ => ?_, ?_⟩
    · exact absurd hgt (not_lt.mpr (hobject most hmem))
    exact bind_ok_iff.mpr ⟨(), lift_ok.mpr hbuffered, rfl⟩

/-- **No operation of the plan overflows.** -/
theorem planMultipartUpload_sound (htotal : 0 < totalSize) :
    Sound (planMultipartUpload countParts totalSize configured capabilities context) := by
  refine bind_sound sound_demand fun _ _ => bind_sound sound_lift fun maxParts hparts => ?_
  obtain ⟨hpartsLt, rfl⟩ := (providerInteger_ok).mp (lift_ok.mp hparts)
  refine bind_sound sound_demand fun _ hpartsPos => bind_sound sound_lift fun _ _ => ?_
  refine bind_sound sound_demand fun _ _ => bind_sound sound_lift fun _ _ => bind_sound sound_demand fun _ _ => ?_
  refine bind_sound ?_ fun _ _ => ?_
  · unfold countLimitedChunkSize
    rw [if_neg (ne_of_gt htotal)]
    have hrange : InRange 63 ((capabilities.maxParts : ℤ) - 1) := ⟨by omega, by omega⟩
    exact bind_sound (sound_signed hrange) fun _ _ => bind_sound sound_demand fun _ _ => sound_ok
  · refine bind_sound sound_lift fun _ _ => bind_sound sound_demand fun _ _ => bind_sound sound_demand fun _ _ => ?_
    exact bind_sound sound_demand fun _ _ => bind_sound sound_lift fun _ _ => sound_ok

/-! ### The parts lie one after the other -/

/-- What a plan leaves in the session. -/
structure Geometry (s : UploadSession) : Prop where
  chunkSize : 0 < s.chunkSize
  totalChunks : 0 < s.totalChunks
  countable : s.totalChunks < 2 ^ 31
  low : (s.totalChunks - 1) * s.chunkSize < s.totalSize
  high : s.totalSize ≤ s.totalChunks * s.chunkSize
  small : s.totalSize < 2 ^ 63

/-- The length of the part `i`. -/
def partSize (s : UploadSession) (i : ℤ) : ℤ :=
  if i < s.totalChunks - 1 then s.chunkSize else s.totalSize - s.chunkSize * (s.totalChunks - 1)

variable {s : UploadSession} {i x size : ℤ}

theorem Geometry.preceding (h : Geometry s) :
    0 ≤ s.chunkSize * (s.totalChunks - 1) ∧ s.chunkSize * (s.totalChunks - 1) < s.totalSize ∧
      s.totalSize ≤ s.chunkSize * (s.totalChunks - 1) + s.chunkSize := by
  have hlow := h.low
  have hhigh := h.high
  have hcomm : s.chunkSize * (s.totalChunks - 1) = (s.totalChunks - 1) * s.chunkSize := mul_comm _ _
  have hnext : s.totalChunks * s.chunkSize = (s.totalChunks - 1) * s.chunkSize + s.chunkSize := by
    rw [Int.sub_mul, Int.one_mul]
    omega
  have hnonneg : 0 ≤ s.chunkSize * (s.totalChunks - 1) := by
    apply Int.mul_nonneg (Int.le_of_lt h.chunkSize)
    have := h.totalChunks
    omega
  omega

/-- **No operation of `expected_chunk_size_for_upload` overflows.** -/
theorem Geometry.expected (h : Geometry s) (i : ℤ) : expectedChunkSize s i = .ok (partSize s i) := by
  obtain ⟨hnonneg, hlow, -⟩ := h.preceding
  have hchunk := h.chunkSize
  have hcount := h.totalChunks
  have hcountable := h.countable
  have hsmall := h.small
  have hlast : InRange 31 (s.totalChunks - 1) := ⟨by omega, by omega⟩
  have hpreceding : InRange 63 (s.chunkSize * (s.totalChunks - 1)) := ⟨by omega, by omega⟩
  have hrest : InRange 63 (s.totalSize - s.chunkSize * (s.totalChunks - 1)) := ⟨by omega, by omega⟩
  unfold expectedChunkSize partSize
  rw [if_neg (by omega)]
  refine bind_ok_iff.mpr ⟨_, signed_of_inRange hlast, ?_⟩
  by_cases hbefore : i < s.totalChunks - 1
  · rw [if_pos hbefore, if_pos hbefore]
    rfl
  · rw [if_neg hbefore, if_neg hbefore]
    refine bind_ok_iff.mpr ⟨_, signed_of_inRange hpreceding, bind_ok_iff.mpr ⟨_, signed_of_inRange hrest, ?_⟩⟩
    rw [if_neg (by omega)]
    rfl

theorem Geometry.expectedForUpload (h : Geometry s) (i : ℤ) : expectedChunkSizeForUpload s i = .ok (partSize s i) := by
  obtain ⟨-, hlow, -⟩ := h.preceding
  have hcount := h.totalChunks
  have hchunk := h.chunkSize
  apply expectedChunkSize_ok_iff.mpr
  refine ⟨hcount, hchunk, ?_⟩
  unfold partSize
  by_cases hbefore : i < s.totalChunks - 1
  · rw [if_pos hbefore]
    exact .inl ⟨hbefore, rfl⟩
  · rw [if_neg hbefore]
    exact .inr ⟨not_lt.mp hbefore, rfl, by omega⟩

theorem Geometry.partSize_pos (h : Geometry s) : 0 < partSize s i := by
  obtain ⟨-, hlow, -⟩ := h.preceding
  have hchunk := h.chunkSize
  unfold partSize
  split_ifs
  · exact hchunk
  · omega

theorem Geometry.partSize_le (h : Geometry s) : partSize s i ≤ s.chunkSize := by
  obtain ⟨-, -, hhigh⟩ := h.preceding
  unfold partSize
  split_ifs
  · exact le_refl _
  · omega

theorem part_end (hi : i < s.totalChunks) :
    chunkStart s i + partSize s i = if i < s.totalChunks - 1 then chunkStart s (i + 1) else s.totalSize := by
  unfold chunkStart partSize
  split_ifs with hbefore
  · rw [add_mul, one_mul]
  · obtain rfl : i = s.totalChunks - 1 := by omega
    rw [mul_comm s.chunkSize]
    omega

theorem Geometry.part_end_le (h : Geometry s) (hi : i < s.totalChunks) :
    chunkStart s i + partSize s i ≤ s.totalSize := by
  rw [part_end hi]
  split_ifs with hbefore
  · have hmul : (i + 1) * s.chunkSize ≤ (s.totalChunks - 1) * s.chunkSize :=
      Int.mul_le_mul_of_nonneg_right (by omega) (Int.le_of_lt h.chunkSize)
    exact le_of_lt (lt_of_le_of_lt hmul h.low)
  · exact le_refl _

theorem index_unique (hchunk : 0 < chunk) (hlow : i * chunk ≤ x) (hhigh : x < i * chunk + chunk) : i = x / chunk := by
  apply le_antisymm
  · exact (Int.le_ediv_iff_mul_le hchunk).mpr hlow
  · have hlt : x / chunk < i + 1 := by
      apply (Int.ediv_lt_iff_lt_mul hchunk).mpr
      rw [Int.add_mul, Int.one_mul]
      exact hhigh
    omega

theorem Geometry.covers (h : Geometry s) (hx : 0 ≤ x) (hlt : x < s.totalSize) :
    ∃! i, (0 ≤ i ∧ i < s.totalChunks) ∧ chunkStart s i ≤ x ∧ x < chunkStart s i + partSize s i := by
  have hchunk := h.chunkSize
  have hindex : x / s.chunkSize < s.totalChunks := (Int.ediv_lt_iff_lt_mul hchunk).mpr (Int.lt_of_lt_of_le hlt h.high)
  have hdiv := mul_ediv_add_emod x s.chunkSize
  have hmod := emod_lt_of_pos x hchunk
  have hmodNonneg := emod_nonneg x (ne_of_gt hchunk)
  have hcomm : x / s.chunkSize * s.chunkSize = s.chunkSize * (x / s.chunkSize) := mul_comm _ _
  refine ⟨x / s.chunkSize, ⟨⟨ediv_nonneg hx (le_of_lt hchunk), hindex⟩, ?_, ?_⟩, ?_⟩
  · show x / s.chunkSize * s.chunkSize ≤ x
    omega
  · rw [part_end hindex]
    split_ifs
    · show x < (x / s.chunkSize + 1) * s.chunkSize
      rw [add_mul, one_mul]
      omega
    · exact hlt
  · rintro i ⟨-, hstart, hend⟩
    have hle := h.partSize_le (i := i)
    exact index_unique hchunk hstart (show x < chunkStart s i + s.chunkSize by omega)

/-- What the plan and the later operations need of the parts. -/
structure Tiled (s : UploadSession) : Prop where
  sound : ∀ i, Sound (expectedChunkSize s i)
  part : ∀ i, 0 ≤ i → i < s.totalChunks → ∃ size, expectedChunkSize s i = .ok size ∧
    expectedChunkSizeForUpload s i = .ok size ∧ 0 < size ∧ 0 ≤ chunkStart s i ∧ chunkStart s i + size ≤ s.totalSize
  covers : ∀ x, 0 ≤ x → x < s.totalSize → ∃! i, (0 ≤ i ∧ i < s.totalChunks) ∧
    ∃ size, expectedChunkSize s i = .ok size ∧ chunkStart s i ≤ x ∧ x < chunkStart s i + size

theorem Geometry.tiled (h : Geometry s) : Tiled s where
  sound i := by
    rw [h.expected i]
    exact sound_ok
  part i hi hlt :=
    ⟨partSize s i, h.expected i, h.expectedForUpload i, h.partSize_pos, Int.mul_nonneg hi (Int.le_of_lt h.chunkSize),
      h.part_end_le hlt⟩
  covers x hx hlt := by
    obtain ⟨i, ⟨hrange, hbyte⟩, hunique⟩ := h.covers hx hlt
    refine ⟨i, ⟨hrange, partSize s i, h.expected i, hbyte⟩, ?_⟩
    rintro j ⟨hj, size, hsize, hin⟩
    rw [h.expected j] at hsize
    cases hsize
    exact hunique j ⟨hj, hin⟩

/-- The plan is within the limits of the provider. -/
structure WithinLimits (totalSize : ℤ) (capabilities : MultipartStorageCapabilities) (plan : MultipartUploadPlan) :
    Prop where
  least : (capabilities.minPartSize : ℤ) ≤ plan.chunkSize
  most : ∀ most ∈ capabilities.maxPartSize, plan.chunkSize ≤ most
  parts : plan.totalChunks ≤ capabilities.maxParts
  enough : (plan.totalChunks - 1) * plan.chunkSize < totalSize ∧ totalSize ≤ plan.totalChunks * plan.chunkSize

theorem le_tried (hsensible : Sensible capabilities) :
    (capabilities.minPartSize : ℤ) ≤ triedChunkSize totalSize configured capabilities := by
  refine le_trans ?_ (le_max_left _ _)
  have hmin := hsensible.minPartSize.2
  have hmost := hsensible.maxPartSize
  apply Int.le_min.mpr
  refine ⟨Int.le_max_right _ _, ?_⟩
  cases hlimit : capabilities.maxPartSize with
  | none => exact le_sub_one_of_lt hmin
  | some most => exact ofNat_le.mpr (hmost most hlimit).2

theorem CountsParts.of_ok (hcounts : CountsParts countParts) (htotal : 0 < totalSize) (hchunk : 0 < chunk)
    (h : countParts totalSize chunk context = .ok n) : n = ceilDiv totalSize chunk ∧ n < 2 ^ 31 := by
  by_cases hfits : ceilDiv totalSize chunk < 2 ^ 31
  · rw [hcounts.count totalSize chunk context htotal hchunk hfits] at h
    cases h
    exact ⟨rfl, hfits⟩
  · obtain ⟨e, he⟩ := hcounts.tooMany totalSize chunk context htotal hchunk (not_lt.mp hfits)
    rw [he] at h
    cases h

theorem Chosen.chunk_pos (h : Chosen countParts totalSize configured capabilities context plan) : 0 < plan.chunkSize := by
  rw [h.size]
  have hmin := h.sensible.minPartSize.1
  have hle : (capabilities.minPartSize : ℤ) ≤ triedChunkSize totalSize configured capabilities := le_tried h.sensible
  omega

theorem Chosen.withinLimits (hcounts : CountsParts countParts) (htotal : 0 < totalSize)
    (h : Chosen countParts totalSize configured capabilities context plan) :
    WithinLimits totalSize capabilities plan := by
  obtain ⟨hcount, -⟩ := hcounts.of_ok htotal h.chunk_pos h.count
  refine ⟨?_, h.most, h.parts, ?_⟩
  · rw [h.size]
    exact le_tried h.sensible
  · rw [hcount]
    exact ceilDiv_spec totalSize h.chunk_pos

theorem Chosen.geometry (hcounts : CountsParts countParts) (htotal : 0 < totalSize) (hsmall : totalSize < 2 ^ 63)
    (h : Chosen countParts totalSize configured capabilities context plan) (hsize : s.totalSize = totalSize)
    (hchunkSize : s.chunkSize = plan.chunkSize) (hchunks : s.totalChunks = plan.totalChunks) : Geometry s := by
  obtain ⟨hcount, hfits⟩ := hcounts.of_ok htotal h.chunk_pos h.count
  have henough := (h.withinLimits hcounts htotal).enough
  refine ⟨?_, ?_, ?_, ?_, ?_, ?_⟩
  · rw [hchunkSize]
    exact h.chunk_pos
  · rw [hchunks, hcount]
    exact ceilDiv_pos htotal h.chunk_pos
  · rw [hchunks]
    exact hfits
  · rw [hchunks, hchunkSize, hsize]
    exact henough.1
  · rw [hchunks, hchunkSize, hsize]
    exact henough.2
  · rw [hsize]
    exact hsmall

/-! ### A plan is found -/

theorem countLimited_le_iff (hparts : 0 < n) : (totalSize + (n - 1)) / n ≤ chunk ↔ totalSize ≤ n * chunk := by
  have hsame : (totalSize + (n - 1)) / n = ceilDiv totalSize n := by
    unfold ceilDiv
    rw [add_sub_assoc]
  rw [hsame, ceilDiv_le_iff hparts, mul_comm]

theorem Allowed.sensible (h : Allowed totalSize capabilities chunk) (htotal : 0 < totalSize)
    (hmin : 0 < capabilities.minPartSize) (hmost : ∀ most ∈ capabilities.maxPartSize, (most : ℤ) < 2 ^ 63)
    (hsum : totalSize + capabilities.maxParts - 1 ≤ 2 ^ 63 - 1) : Sensible capabilities := by
  have hcount := ceilDiv_pos htotal h.positive
  have hparts := h.count
  have hleast := h.least
  have hsmall := h.small
  refine ⟨⟨by omega, by omega⟩, ⟨hmin, by omega⟩, fun most hmem => ⟨hmost most hmem, ?_⟩⟩
  have := h.most most hmem
  omega

/-- What is tried is not greater than the size that is allowed, or it is the configured one. -/
theorem Allowed.tried_le (h : Allowed totalSize capabilities chunk) (hparts : 0 < capabilities.maxParts) {most : ℕ}
    (hmost : most ∈ capabilities.maxPartSize) : triedChunkSize totalSize configured capabilities ≤ most := by
  have hcount := (ceilDiv_le_iff h.positive).mp h.count
  have hlimited := (countLimited_le_iff (by omega)).mpr hcount
  apply Int.max_le.mpr
  refine ⟨?_, Int.le_trans hlimited (h.most most hmost)⟩
  rw [Option.mem_def.mp hmost]
  exact min_le_right _ _

theorem tried_parts (hparts : 0 < capabilities.maxParts) (htried : 0 < triedChunkSize totalSize configured capabilities) :
    ceilDiv totalSize (triedChunkSize totalSize configured capabilities) ≤ capabilities.maxParts := by
  apply (ceilDiv_le_iff htried).mpr
  apply (countLimited_le_iff (by omega)).mp
  exact le_max_right _ _

/-- **A plan is found wherever some size is within the limits.** -/
theorem Allowed.plan_found (h : Allowed totalSize capabilities chunk) (hcounts : CountsParts countParts)
    (htotal : 0 < totalSize) (hmode : capabilities.uploadMode = .nativeStreaming) (hmin : 0 < capabilities.minPartSize)
    (hmost : ∀ most ∈ capabilities.maxPartSize, (most : ℤ) < 2 ^ 63)
    (hsum : totalSize + capabilities.maxParts - 1 ≤ 2 ^ 63 - 1)
    (hfits : ceilDiv totalSize (triedChunkSize totalSize configured capabilities) ≤ 2 ^ 31 - 1) :
    ∃ plan, planMultipartUpload countParts totalSize configured capabilities context = .ok plan := by
  have hsensible := h.sensible htotal hmin hmost hsum
  have hparts := hsensible.maxParts.1
  have htried : 0 < triedChunkSize totalSize configured capabilities := by
    have hle : (capabilities.minPartSize : ℤ) ≤ triedChunkSize totalSize configured capabilities := le_tried hsensible
    omega
  refine ⟨⟨triedChunkSize totalSize configured capabilities,
    ceilDiv totalSize (triedChunkSize totalSize configured capabilities)⟩, (planMultipartUpload_ok htotal).mpr ?_⟩
  refine ⟨hsensible, ⟨by omega, by omega⟩, rfl, ?_, ?_, ?_, h.object, ?_⟩
  · have hlt : ceilDiv totalSize (triedChunkSize totalSize configured capabilities) < 2 ^ 31 := by omega
    exact hcounts.count totalSize _ context htotal htried hlt
  · exact fun most hmem => h.tried_le hparts hmem
  · exact tried_parts hparts htried
  · rw [hmode]
    rfl

/-- **Multipart plans tile the file within the limits of the provider, and one is found where there is one.** -/
theorem multipart_plan_tiles (hcounts : CountsParts countParts) (htotal : 1 ≤ totalSize) (hsmall : totalSize ≤ 2 ^ 63 - 1) :
    Sound (planMultipartUpload countParts totalSize configured capabilities context) ∧
      (∀ plan, planMultipartUpload countParts totalSize configured capabilities context = .ok plan →
        WithinLimits totalSize capabilities plan ∧
          ∀ s : UploadSession, s.totalSize = totalSize → s.chunkSize = plan.chunkSize → s.totalChunks = plan.totalChunks →
            Tiled s) ∧
      (capabilities.uploadMode = .nativeStreaming → 0 < capabilities.minPartSize →
        (∀ most ∈ capabilities.maxPartSize, (most : ℤ) < 2 ^ 63) → totalSize + capabilities.maxParts - 1 ≤ 2 ^ 63 - 1 →
        ceilDiv totalSize (triedChunkSize totalSize configured capabilities) ≤ 2 ^ 31 - 1 →
        (∀ plan, planMultipartUpload countParts totalSize configured capabilities context ≠ .ok plan) →
        ¬ ∃ chunk, Allowed totalSize capabilities chunk) := by
  refine ⟨planMultipartUpload_sound htotal, fun plan h => ?_, fun hmode hmin hmost hsum hfits hfails => ?_⟩
  · have hchosen := (planMultipartUpload_ok htotal).mp h
    refine ⟨hchosen.withinLimits hcounts htotal, fun s hsize hchunkSize hchunks => ?_⟩
    exact (hchosen.geometry hcounts htotal (by omega) hsize hchunkSize hchunks).tiled
  · rintro ⟨chunk, hallowed⟩
    obtain ⟨plan, hplan⟩ := hallowed.plan_found hcounts htotal hmode hmin hmost hsum hfits
    exact hfails plan hplan

end

/-- The count, as the plan's tests expect it. -/
def roundedUp (total chunk : ℤ) (context : String) : Except AsterError ℤ :=
  if ceilDiv total chunk < 2 ^ 31 then .ok (ceilDiv total chunk) else .error (planError (context ++ " total_chunks overflow"))

theorem roundedUp_counts : CountsParts roundedUp where
  count _ _ _ _ _ h := if_pos h
  tooMany _ _ _ _ _ h := ⟨_, if_neg (not_lt.mpr h)⟩

/-- Twelve bytes within parts of five to eight: a part of eight and one of four. -/
theorem multipart_plan_tiles_twelve :
    planMultipartUpload roundedUp 12 8 ⟨5, some 8, 3, none, .nativeStreaming⟩ "object" = .ok ⟨8, 2⟩ ∧
      WithinLimits 12 ⟨5, some 8, 3, none, .nativeStreaming⟩ ⟨8, 2⟩ :=
  have hplan : planMultipartUpload roundedUp 12 8 ⟨5, some 8, 3, none, .nativeStreaming⟩ "object" = .ok ⟨8, 2⟩ := by decide
  ⟨hplan, ((multipart_plan_tiles roundedUp_counts (by decide) (by decide)).2.1 _ hplan).1⟩

/-- A provider without a minimum is refused, although parts of one byte are within its limits. -/
theorem multipart_plan_minimum_zero : planMultipartUpload roundedUp 1 1 ⟨0, none, 1, none, .nativeStreaming⟩ "object" =
        .error (.rejected (planError "object provider minimum part size must be positive")) ∧
      ceilDiv 1 (triedChunkSize 1 1 ⟨0, none, 1, none, .nativeStreaming⟩) ≤ 2 ^ 31 - 1 ∧
      Allowed 1 ⟨0, none, 1, none, .nativeStreaming⟩ 1 :=
  ⟨by decide, by decide, by decide, by decide, by decide, (fun _ hmem => nomatch hmem), by decide, (fun _ hmem => nomatch hmem)⟩

end AsterDrive.Upload.MultipartPlan
