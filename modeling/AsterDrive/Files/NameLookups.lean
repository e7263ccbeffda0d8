import AsterDrive.Files.Tree

/-!
# NameLookups — which names are in use in a folder

`file_repo/query/names.rs` and the lookups by name of `folder_repo/query.rs`. A lookup of one name takes the exact name and
then any name with the same normal form. A lookup of many asks for the names and their NFC and NFD forms, and compares the
normal forms of all siblings only with the listed names that are not ASCII. The search for a free copy name, in batches of
32 candidates, asks for the forms only. So the lookups differ about stored names in a form that is not asked for
(`lookups_agree_iff`).
-/

namespace AsterDrive.Files.NameLookups

open Db List

/-- `is_ascii`. -/
def isAscii (s : String) : Bool := s.toList.all fun c => c.val < 128

/-- The Unicode normalizations; `normalize_name` is `nfc`. -/
structure Normalization where
  nfc : String → String
  nfd : String → String
  idempotent : ∀ s, nfc (nfc s) = nfc s
  composed : ∀ s, nfc (nfd s) = nfc s
  ascii : ∀ s, isAscii s → nfc s = s

section

variable (u : Normalization)

/-- What of `aster_forge_validation::filename` the copy names come from: a valid name is normalized, and so are its copy
names. -/
structure CopyNames where
  Template : Type
  nextCopyNumber : Template → ℕ
  copyNameTemplate : String → Template
  formatCopyName : Template → ℕ → String
  normalizeValidateName : String → Except AsterError String
  valid : ∀ {s x}, normalizeValidateName s = .ok x → u.nfc x = x
  copies : ∀ {x}, u.nfc x = x → ∀ n, u.nfc (formatCopyName (copyNameTemplate x) n) = formatCopyName (copyNameTemplate x) n

/-! ### Lookups of many names -/

/-- `push_unique_normalization_variant`, and the same for owned strings. -/
def pushUniqueNormalizationVariant (variants : List String) (variant : String) : List String :=
  if variant ∈ variants then variants else variants ++ [variant]

/-- The forms of one name. -/
def pushVariants (variants : List String) (name : String) : List String :=
  let variants := pushUniqueNormalizationVariant variants name
  if isAscii name then variants
  else
    let variants := if u.nfc name = name then variants else pushUniqueNormalizationVariant variants (u.nfc name)
    if u.nfd name = name then variants else pushUniqueNormalizationVariant variants (u.nfd name)

def addNormalizationQueryVariants (names : List String) : List String :=
  if names.all isAscii then names else names.foldl (pushVariants u) []

def normalizedNonAsciiNames (names : List String) : List String := (names.filter fun n => !isAscii n).map u.nfc

/-- The lookup of a list of names, among rows with these ids and names. -/
def findByNames {ρ : Type} (id : ρ → ℕ) (nameOf : ρ → String) (rows : List ρ) (names : List String) : List ρ :=
  if names = [] then []
  else
    let found := rows.filter fun r => nameOf r ∈ addNormalizationQueryVariants u names
    if normalizedNonAsciiNames u names = [] then found
    else found ++ rows.filter fun r => id r ∉ found.map id ∧ u.nfc (nameOf r) ∈ normalizedNonAsciiNames u names

def liveFiles (t : Db.Files) (scope : WorkspaceResourceScope) (folderId : Option ℕ) : List File :=
  t.rows.filter fun f => fileMatchesScope f scope && f.deletedAt.isNone && decide (f.folderId = folderId)

def liveFolders (t : Folders) (scope : WorkspaceResourceScope) (parentId : Option ℕ) : List Folder :=
  t.rows.filter fun f => folderMatchesScope f scope && f.deletedAt.isNone && decide (f.parentId = parentId)

/-- `find_by_names_in_folder_in_scope`. -/
def findByNamesInFolderInScope (t : Db.Files) (scope : WorkspaceResourceScope) (folderId : Option ℕ) :
    List String → List File :=
  findByNames u File.id File.name (liveFiles t scope folderId)

/-- `find_by_names_in_parent_in_scope`. -/
def findByNamesInParentInScope (t : Folders) (scope : WorkspaceResourceScope) (parentId : Option ℕ) :
    List String → List Folder :=
  findByNames u Folder.id Folder.name (liveFolders t scope parentId)

/-! ### Copy names -/

/-- `find_names_by_names_in_folder_in_scope`, among the names of the live files. -/
def findNamesByNames (live names : List String) : List String := if names = [] then [] else live.filter (· ∈ names)

def normalizeExistingFilename (name : String) : String :=
  if isAscii name ∨ u.nfc name = name then name else u.nfc name

def existingNames (live candidates : List String) : List String :=
  (findNamesByNames live (addNormalizationQueryVariants u candidates)).map (normalizeExistingFilename u)

def uniqueFilenameCandidateError (name : String) : AsterError :=
  validationError ("failed to resolve a unique file name candidate for '" ++ name ++ "'")

def checkedCandidateCopyNumber (name : String) (start offset : ℕ) : Except AsterError ℕ :=
  if offset < 2 ^ 32 ∧ start + offset < 2 ^ 32 then .ok (start + offset) else .error (uniqueFilenameCandidateError name)

variable {u} (copy : CopyNames u)

def buildCopyFilenameCandidateBatch (template : copy.Template) (name : String) (start count : ℕ) :
    Except AsterError (List String) :=
  (range count).mapM fun offset => (checkedCandidateCopyNumber name start offset).map (copy.formatCopyName template)

/-- The batches after the first. -/
def tryBatches (live : List String) (template : copy.Template) (name : String) (next : ℕ) : Except AsterError String :=
  match buildCopyFilenameCandidateBatch copy template name next 32 with
  | .error e => .error e
  | .ok candidates =>
    match candidates.find? fun c => c ∉ existingNames u live candidates with
    | some c => .ok c
    | none =>
      if next + 32 < 2 ^ 32 then tryBatches live template name (next + 32)
      else .error (uniqueFilenameCandidateError name)
  termination_by 2 ^ 32 - next

/-- `resolve_unique_filename_in_scope`. -/
def resolveUniqueFilename (live : List String) (name : String) : Except AsterError String := do
  let name ← copy.normalizeValidateName name
  let template := copy.copyNameTemplate name
  let copies ← buildCopyFilenameCandidateBatch copy template name (copy.nextCopyNumber template) 31
  match (name :: copies).find? fun c => c ∉ existingNames u live (name :: copies) with
  | some c => .ok c
  | none => do
    let next ← checkedCandidateCopyNumber name (copy.nextCopyNumber template) 31
    tryBatches copy live template name next

/-! ### What the lookups are to do -/

/-- The result has each sibling whose normal form is that of a listed name once, so it finds what the lookup of one name
finds. -/
structure Agrees (u : Normalization) {ρ : Type} (id : ρ → ℕ) (nameOf : ρ → String) (rows : List ρ) (findByName : String → Option ρ)
    (names : List String) (found : List ρ) : Prop where
  once : (found.map id).Nodup
  exact : ∀ r, r ∈ found ↔ r ∈ rows ∧ ∃ n ∈ names, u.nfc (nameOf r) = u.nfc n
  single : ∀ n ∈ names, (∃ r ∈ found, u.nfc (nameOf r) = u.nfc n) ↔ (findByName n).isSome

/-- No sibling is missed: where a stored name has a listed ASCII name as its normal form, it is that name, or a listed name
that is not ASCII has this normal form too. -/
def AsciiExact (u : Normalization) (live names : List String) : Prop :=
  ∀ x ∈ live, ∀ n ∈ names, isAscii n → u.nfc x = n → x = n ∨ ∃ m ∈ names, isAscii m = false ∧ u.nfc m = n

/-- The candidates in their order. -/
def candidate (name : String) : ℕ → String
  | 0 => name
  | k + 1 => copy.formatCopyName (copy.copyNameTemplate name) (copy.nextCopyNumber (copy.copyNameTemplate name) + k)

/-- The copy number of a candidate is one of 32 bits. -/
def Numbered (name : String) (k : ℕ) : Prop := copy.nextCopyNumber (copy.copyNameTemplate name) + k ≤ 2 ^ 32

/-- So are those of its whole batch. -/
def Tried (name : String) (k : ℕ) : Prop := Numbered copy name (32 * (k / 32) + 31)

/-- The lookup of one name finds a file. -/
def Found (u : Normalization) (live : List String) (c : String) : Prop := ∃ x ∈ live, u.nfc x = u.nfc c

/-- A file has the name in one of the forms that are asked for. -/
def Taken (u : Normalization) (live : List String) (c : String) : Prop := c ∈ live ∨ isAscii c = false ∧ u.nfd c ∈ live

/-- The first candidate that the lookup of one name does not find, and an error only when there is none. -/
def FirstFree (live : List String) (name : String) (result : Except AsterError String) : Prop :=
  match result with
  | .ok c => ∃ k, c = candidate copy name k ∧ Numbered copy name k ∧ ¬ Found u live c ∧ ∀ j < k, Found u live (candidate copy name j)
  | .error _ => ∀ k, Numbered copy name k → Found u live (candidate copy name k)

/-- The candidates that are tried have no file in a third form before the first free one, and when all of them are found, so
are the others. -/
def FormsSuffice (live : List String) (name : String) : Prop :=
  (∀ k, Tried copy name k → (∀ j ≤ k, Found u live (candidate copy name j)) → Taken u live (candidate copy name k)) ∧
    ((∀ k, Tried copy name k → Found u live (candidate copy name k)) →
      ∀ k, Numbered copy name k → Found u live (candidate copy name k))

end

section

variable {u : Normalization} {x name : String} {names live : List String}

/-! ### The batch lookup -/

theorem mem_pushVariants : x ∈ pushVariants u names name ↔
    x ∈ names ∨ x = name ∨ isAscii name = false ∧ (x = u.nfc name ∨ x = u.nfd name) := by
  unfold pushVariants pushUniqueNormalizationVariant
  grind

theorem mem_variants : x ∈ addNormalizationQueryVariants u names ↔
    ∃ n ∈ names, x = n ∨ isAscii n = false ∧ (x = u.nfc n ∨ x = u.nfd n) := by
  have hfold : ∀ (names l : List String), x ∈ names.foldl (pushVariants u) l ↔
      x ∈ l ∨ ∃ n ∈ names, x = n ∨ isAscii n = false ∧ (x = u.nfc n ∨ x = u.nfd n) := by
    intro names
    induction names with
    | nil => simp
    | cons n names ih =>
      intro l
      rw [foldl_cons, ih, mem_pushVariants]
      simp [or_assoc]
  unfold addNormalizationQueryVariants
  split_ifs with hall
  · have hascii := all_eq_true.mp hall
    grind
  · simpa using hfold names []

variable {ρ : Type} {id : ρ → ℕ} {nameOf : ρ → String} {rows : List ρ} {r : ρ}

theorem mem_findByNames (hids : (rows.map id).Nodup) : r ∈ findByNames u id nameOf rows names ↔
    r ∈ rows ∧ ∃ n ∈ names, nameOf r = n ∨ isAscii n = false ∧ u.nfc (nameOf r) = u.nfc n := by
  have hforms : nameOf r ∈ addNormalizationQueryVariants u names →
      ∃ n ∈ names, nameOf r = n ∨ isAscii n = false ∧ u.nfc (nameOf r) = u.nfc n := by
    have hnfc := u.idempotent
    have hnfd := u.composed
    rw [mem_variants]
    grind
  have hnormal : u.nfc (nameOf r) ∈ normalizedNonAsciiNames u names ↔
      ∃ n ∈ names, isAscii n = false ∧ u.nfc (nameOf r) = u.nfc n := by
    unfold normalizedNonAsciiNames
    grind
  unfold findByNames
  by_cases hnil : names = []
  · simp [hnil]
  split_ifs with hnone
  · rw [mem_filter, decide_eq_true_eq]
    refine and_congr_right fun _ => ⟨hforms, ?_⟩
    rintro ⟨n, hn, rfl | ⟨hascii, heq⟩⟩
    · exact (mem_variants).mpr ⟨_, hn, .inl rfl⟩
    · rw [hnone] at hnormal
      exact absurd (hnormal.mpr ⟨n, hn, hascii, heq⟩) not_mem_nil
  · simp only [mem_append, mem_filter, decide_eq_true_eq]
    have hsame : ∀ {y}, y ∈ rows → r ∈ rows → id y = id r → y = r := fun hy hr => inj_on_of_nodup_map hids hy hr
    have hvariant : ∀ {y n}, n ∈ names → nameOf y = n → nameOf y ∈ addNormalizationQueryVariants u names :=
      fun hn heq => (mem_variants).mpr ⟨_, hn, .inl heq⟩
    grind

theorem nodup_findByNames (hids : (rows.map id).Nodup) : ((findByNames u id nameOf rows names).map id).Nodup := by
  have hpart : ∀ p : ρ → Bool, ((rows.filter p).map id).Nodup := fun p => hids.sublist (filter_sublist.map id)
  unfold findByNames
  split_ifs
  · exact nodup_nil
  · exact hpart _
  · rw [map_append]
    refine (hpart _).append (hpart _) fun k hfound hrest => ?_
    obtain ⟨y, hy, rfl⟩ := mem_map.mp hrest
    exact (of_decide_eq_true (mem_filter.mp hy).2).1 hfound

/-- The batch lookup agrees where it misses no sibling. -/
theorem findByNames_agrees_iff {findByName : String → Option ρ} (hids : (rows.map id).Nodup)
    (hsingle : ∀ n, (findByName n).isSome ↔ Found u (rows.map nameOf) n) :
    Agrees u id nameOf rows findByName names (findByNames u id nameOf rows names) ↔ AsciiExact u (rows.map nameOf) names := by
  constructor
  · intro h x hx n hn hascii hnormal
    obtain ⟨r, hr, rfl⟩ := mem_map.mp hx
    have hmem := (mem_findByNames hids).mp ((h.exact r).mpr ⟨hr, n, hn, hnormal.trans (u.ascii n hascii).symm⟩)
    have hasciiOf := u.ascii
    grind
  · intro h
    have hexact : ∀ r, r ∈ findByNames u id nameOf rows names ↔ r ∈ rows ∧ ∃ n ∈ names, u.nfc (nameOf r) = u.nfc n := by
      intro r
      rw [mem_findByNames hids]
      refine and_congr_right fun hr => ?_
      have hmiss := h _ (mem_map_of_mem hr)
      have hasciiOf := u.ascii
      grind
    refine ⟨nodup_findByNames hids, hexact, fun n hn => ?_⟩
    rw [hsingle]
    constructor
    · rintro ⟨r, hr, heq⟩
      exact ⟨_, mem_map_of_mem ((hexact r).mp hr).1, heq⟩
    · rintro ⟨x, hx, heq⟩
      obtain ⟨r, hr, rfl⟩ := mem_map.mp hx
      exact ⟨r, (hexact r).mpr ⟨hr, n, hn, heq⟩, heq⟩

/-- The lookup of one name, exact or normalized. -/
theorem found_of_or : ((rows.find? fun r => nameOf r = x).or (rows.find? fun r => u.nfc (nameOf r) = u.nfc x)).isSome ↔
    Found u (rows.map nameOf) x := by
  rw [Option.isSome_or, Bool.or_eq_true, find?_isSome, find?_isSome]
  simp only [decide_eq_true_eq, Found, mem_map]
  constructor
  · rintro (⟨r, hr, rfl⟩ | ⟨r, hr, heq⟩)
    · exact ⟨_, ⟨r, hr, rfl⟩, rfl⟩
    · exact ⟨_, ⟨r, hr, rfl⟩, heq⟩
  · rintro ⟨-, ⟨r, hr, rfl⟩, heq⟩
    exact .inr ⟨r, hr, heq⟩

/-! ### The search for a copy name -/

theorem Taken.found {c : String} (h : Taken u live c) : Found u live c := by
  rcases h with h | ⟨-, h⟩
  · exact ⟨c, h, rfl⟩
  · exact ⟨_, h, u.composed c⟩

theorem mem_existingNames {candidates : List String} (hnormal : ∀ c ∈ candidates, u.nfc c = c) {c : String}
    (hc : c ∈ candidates) : c ∈ existingNames u live candidates ↔ Taken u live c := by
  have hnormalize : ∀ y, normalizeExistingFilename u y = u.nfc y := by
    intro y
    unfold normalizeExistingFilename
    split_ifs with h
    · exact (h.elim (u.ascii y) fun h => h).symm
    · rfl
  have hne : addNormalizationQueryVariants u candidates ≠ [] := by
    intro h
    have hmem : c ∈ addNormalizationQueryVariants u candidates := (mem_variants).mpr ⟨c, hc, .inl rfl⟩
    rw [h] at hmem
    exact absurd hmem not_mem_nil
  simp only [existingNames, findNamesByNames, if_neg hne, mem_map, mem_filter, decide_eq_true_eq, hnormalize]
  have hnfd := u.composed
  unfold Taken
  constructor
  · rintro ⟨y, ⟨hy, hvariant⟩, rfl⟩
    obtain ⟨n, hn, hform⟩ := (mem_variants).mp hvariant
    grind
  · rintro (h | ⟨hascii, h⟩)
    · exact ⟨c, ⟨h, (mem_variants).mpr ⟨c, hc, .inl rfl⟩⟩, hnormal c hc⟩
    · exact ⟨_, ⟨h, (mem_variants).mpr ⟨c, hc, .inr ⟨hascii, .inr rfl⟩⟩⟩, (u.composed c).trans (hnormal c hc)⟩

variable {copy : CopyNames u} {m : ℕ}

theorem nfc_candidate (hname : u.nfc name = name) (k : ℕ) : u.nfc (candidate copy name k) = candidate copy name k := by
  cases k with
  | zero => exact hname
  | succ k => exact copy.copies hname _

/-- What the search has come to: the first candidate that is not taken, among those of whole batches. -/
def Searched (copy : CopyNames u) (live : List String) (name : String) : Except AsterError String → Prop
  | .ok c => ∃ k, c = candidate copy name k ∧ Tried copy name k ∧ ¬ Taken u live c ∧ ∀ j < k, Taken u live (candidate copy name j)
  | .error _ => ∀ k, Tried copy name k → Taken u live (candidate copy name k)

theorem batch_searched (hname : u.nfc name = name) {candidates : List String} (hlength : candidates.length = 32)
    (hcandidates : ∀ o (h : o < candidates.length), candidates[o] = candidate copy name (32 * m + o))
    (hbefore : ∀ j < 32 * m, Taken u live (candidate copy name j)) (htried : Tried copy name (32 * m)) :
    match candidates.find? fun c => c ∉ existingNames u live candidates with
    | some c => Searched copy live name (.ok c)
    | none => ∀ j < 32 * (m + 1), Taken u live (candidate copy name j) := by
  have hnormal : ∀ c ∈ candidates, u.nfc c = c := by
    intro c hc
    obtain ⟨o, ho, rfl⟩ := getElem_of_mem hc
    rw [hcandidates o ho]
    exact nfc_candidate hname _
  have htaken : ∀ o (ho : o < candidates.length), candidates[o] ∈ existingNames u live candidates ↔
      Taken u live (candidate copy name (32 * m + o)) := by
    intro o ho
    rw [mem_existingNames hnormal (getElem_mem ho), hcandidates o ho]
  have hupto : ∀ o ≤ 32, (∀ i (hi : i < candidates.length), i < o → candidates[i] ∈ existingNames u live candidates) →
      ∀ j < 32 * m + o, Taken u live (candidate copy name j) := by
    intro o ho h j hj
    by_cases hlt : j < 32 * m
    · exact hbefore j hlt
    · obtain ⟨i, rfl⟩ : ∃ i, j = 32 * m + i := ⟨j - 32 * m, by omega⟩
      exact (htaken i (by omega)).mp (h i _ (by omega))
  cases hfind : candidates.find? fun c => c ∉ existingNames u live candidates with
  | none =>
    have hall := find?_eq_none.mp hfind
    refine fun j hj => hupto 32 (Nat.le_refl _) (fun i hi _ => ?_) j (by omega)
    simpa using hall _ (getElem_mem hi)
  | some c =>
    obtain ⟨hc, o, ho, rfl, hfirst⟩ := find?_eq_some_iff_getElem.mp hfind
    refine ⟨32 * m + o, hcandidates o ho, ?_, ?_, hupto o (by omega) fun i hi hlt => by simpa using hfirst i hlt⟩
    · have hbatch : (32 * m + o) / 32 = 32 * m / 32 := by omega
      unfold Tried at htried ⊢
      rwa [hbatch]
    · rw [hcandidates o ho, ← htaken o ho]
      exact of_decide_eq_true hc

theorem mapM_checked (template : copy.Template) (start count : ℕ) (hcount : count ≤ 32) :
    buildCopyFilenameCandidateBatch copy template name start count =
      if ∀ o < count, start + o < 2 ^ 32 then .ok ((range count).map fun o => copy.formatCopyName template (start + o))
      else .error (uniqueFilenameCandidateError name) := by
  have hmap : ∀ l : List ℕ, (∀ o ∈ l, o < 32) →
      (l.mapM fun o => (checkedCandidateCopyNumber name start o).map (copy.formatCopyName template)) =
        if ∀ o ∈ l, start + o < 2 ^ 32 then .ok (l.map fun o => copy.formatCopyName template (start + o))
        else .error (uniqueFilenameCandidateError name) := by
    intro l hl
    induction l with
    | nil => rfl
    | cons o l ih =>
      have hsmall : o < 2 ^ 32 := Nat.lt_trans (hl o mem_cons_self) (by decide)
      rw [mapM_cons, ih fun o ho => hl o (mem_cons_of_mem _ ho), checkedCandidateCopyNumber]
      have hcons : (∀ i ∈ o :: l, start + i < 2 ^ 32) ↔ start + o < 2 ^ 32 ∧ ∀ i ∈ l, start + i < 2 ^ 32 := forall_mem_cons
      split_ifs <;> first | rfl | tauto
  have hrange := hmap (range count) fun o ho => Nat.lt_of_lt_of_le (mem_range.mp ho) hcount
  simp only [mem_range] at hrange
  exact hrange

theorem tryBatches_searched (hname : u.nfc name = name) (m next : ℕ)
    (hnext : next + 1 = copy.nextCopyNumber (copy.copyNameTemplate name) + 32 * m)
    (hbefore : ∀ j < 32 * m, Taken u live (candidate copy name j)) (hm : 0 < m) :
    Searched copy live name (tryBatches copy live (copy.copyNameTemplate name) name next) := by
  have htried : Tried copy name (32 * m) ↔ ∀ o < 32, next + o < 2 ^ 32 := by
    unfold Tried Numbered
    exact ⟨fun h o ho => by omega, fun h => by have hlast := h 31 (by decide); omega⟩
  have hall : next + 32 ≥ 2 ^ 32 → (∀ j < 32 * (m + 1), Taken u live (candidate copy name j)) →
      ∀ k, Tried copy name k → Taken u live (candidate copy name k) := by
    intro hover hdone k hk
    unfold Tried Numbered at hk
    exact hdone k (by omega)
  rw [tryBatches, mapM_checked _ _ _ (Nat.le_refl _)]
  by_cases hnumbers : ∀ o < 32, next + o < 2 ^ 32
  · rw [if_pos hnumbers]
    have hbatch := @batch_searched u name live copy m hname
      ((range 32).map fun o => copy.formatCopyName (copy.copyNameTemplate name) (next + o)) (by simp)
      (fun o ho => by
        have hindex : 32 * m + o = (32 * m + o - 1) + 1 := by omega
        rw [hindex, candidate, getElem_map, getElem_range]
        congr 1
        omega) hbefore (htried.mpr hnumbers)
    dsimp only
    split at hbatch
    · exact hbatch
    · split_ifs with hmore
      · exact tryBatches_searched hname (m + 1) (next + 32) (by omega) hbatch (by omega)
      · exact hall (by omega) hbatch
  · rw [if_neg hnumbers]
    intro k hk
    refine hbefore k ?_
    by_contra hlt
    refine hnumbers (htried.mp ?_)
    unfold Tried Numbered at hk ⊢
    omega
  termination_by 2 ^ 32 - next

theorem resolveUniqueFilename_searched {s : String} (hvalid : copy.normalizeValidateName s = .ok name) :
    Searched copy live name (resolveUniqueFilename copy live s) := by
  have hname := copy.valid hvalid
  have hbatch := @batch_searched u name live copy 0 hname
    (name :: (range 31).map fun o => copy.formatCopyName (copy.copyNameTemplate name) (copy.nextCopyNumber _ + o)) (by simp)
    (fun o ho => by
      rw [Nat.zero_add]
      cases o with
      | zero => rfl
      | succ o => rw [getElem_cons_succ, getElem_map, getElem_range, candidate])
    (fun j hj => absurd hj (Nat.not_lt_zero j))
  show Searched copy live name (Except.bind (copy.normalizeValidateName s) _)
  rw [hvalid]
  show Searched copy live name (Except.bind (buildCopyFilenameCandidateBatch copy _ name _ 31) _)
  rw [mapM_checked _ _ _ (by decide)]
  by_cases hnumbers : ∀ o < 31, copy.nextCopyNumber (copy.copyNameTemplate name) + o < 2 ^ 32
  · rw [if_pos hnumbers]
    have hlast := hnumbers 30 (by decide)
    have hbatch := hbatch (by unfold Tried Numbered; omega)
    dsimp only [Except.bind]
    split at hbatch
    · exact hbatch
    · unfold checkedCandidateCopyNumber
      split_ifs with hnext
      · exact tryBatches_searched hname 1 _ (by omega) hbatch (by decide)
      · intro k hk
        unfold Tried Numbered at hk
        exact hbatch k (by omega)
  · rw [if_neg hnumbers]
    intro k hk
    refine absurd (fun o ho => ?_) hnumbers
    unfold Tried Numbered at hk
    omega

/-- The search agrees where the forms suffice. -/
theorem firstFree_iff {s : String} (hvalid : copy.normalizeValidateName s = .ok name) :
    FirstFree copy live name (resolveUniqueFilename copy live s) ↔ FormsSuffice copy live name := by
  have hnumbered : ∀ {k}, Tried copy name k → Numbered copy name k := by
    intro k hk
    unfold Tried Numbered at *
    omega
  have hsearched : Searched copy live name (resolveUniqueFilename copy live s) := resolveUniqueFilename_searched hvalid
  cases hresult : resolveUniqueFilename copy live s with
  | error e =>
    rw [hresult] at hsearched
    refine ⟨fun h => ⟨fun k hk _ => hsearched k hk, fun _ => h⟩, fun h => h.2 fun k hk => (hsearched k hk).found⟩
  | ok c =>
    rw [hresult] at hsearched
    obtain ⟨k, hc, htried, hfree, hbefore⟩ := hsearched
    constructor
    · rintro ⟨i, hi, -, hnot, hfirst⟩
      have hki : ¬ Found u live (candidate copy name k) := hc ▸ hnot
      refine ⟨fun j hj hall => ?_, fun hall => absurd (hall k htried) hki⟩
      by_cases hlt : j < k
      · exact hbefore j hlt
      · exact absurd (hall k (by omega)) hki
    · intro h
      refine ⟨k, hc, hnumbered htried, fun hfound => hfree ?_, fun j hj => (hbefore j hj).found⟩
      rw [hc] at hfound ⊢
      refine h.1 k htried fun j hj => ?_
      by_cases hjk : j = k
      · exact hjk ▸ hfound
      · exact (hbefore j (by omega)).found

end

/-! ### A sign that normalizes to an ASCII letter -/

/-- Kelvin and the letter K. -/
def kelvin : Normalization where
  nfc s := if s = "\u212a" then "K" else s
  nfd s := if s = "\u212a" then "K" else s
  idempotent s := by split_ifs <;> simp_all
  composed s := by split_ifs <;> simp_all
  ascii s h := if_neg fun hs => by
    rw [hs] at h
    exact absurd h (by decide)

end AsterDrive.Files.NameLookups
