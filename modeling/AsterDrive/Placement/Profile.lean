import Mathlib.Data.Int.Notation
import Mathlib.Tactic.Common

/-!
# Placement.Profile — compiled placement profiles

A placement profile is what a policy group is compiled to: constraints on what is admitted, and rules that choose among
the targets of storage. Matchers and admission constraints are stored as JSON and checked when they are compiled.
-/

namespace AsterDrive.Placement

def placementPayloadFormatVersion : ℕ := 1

def placementPayloadSchemaVersion : ℕ := 1

structure PlacementPayloadEnvelope (α : Type) where
  formatVersion : ℕ
  schemaVersion : ℕ
  values : α

inductive FileCategory
  | image | video | audio | document | spreadsheet | presentation | archive | code | other
  deriving DecidableEq

def FileCategory.asStr : FileCategory → String
  | .image => "image"
  | .video => "video"
  | .audio => "audio"
  | .document => "document"
  | .spreadsheet => "spreadsheet"
  | .presentation => "presentation"
  | .archive => "archive"
  | .code => "code"
  | .other => "other"

structure StorageAdmissionConstraints where
  allowedExtensions : List String := []
  deniedExtensions : List String := []
  acceptExtensionless : Bool := true
  allowedCategories : List FileCategory := []
  maxFileSize : ℤ := 0

structure PlacementMatcher where
  minFileSize : ℤ := 0
  maxFileSize : ℤ := 0
  extensions : List String := []
  compoundExtensions : List String := []
  extensionless : Option Bool := none
  categories : List FileCategory := []

inductive PlacementSelectionMode
  | firstAvailable | weightedRandom

inductive PlacementUnavailableBehavior
  | nextRule | reject
  deriving DecidableEq

inductive UploadExecutionPreference
  | automatic | forceServerStream

def parseSelectionMode : String → Option PlacementSelectionMode
  | "first_available" => some .firstAvailable
  | "weighted_random" => some .weightedRandom
  | _ => none

def parseUnavailableBehavior : String → Option PlacementUnavailableBehavior
  | "next_rule" => some .nextRule
  | "reject" => some .reject
  | _ => none

def parseExecutionPreference : String → Option UploadExecutionPreference
  | "automatic" => some .automatic
  | "force_server_stream" => some .forceServerStream
  | _ => none

inductive TargetExclusionReason
  | draining | unavailable | incompatible | policyFileSizeExceeded | capacityInsufficient | capacityUnavailable

structure PlacementTarget where
  id : ℕ
  policyId : ℕ
  weight : ℕ
  stableOrder : ℕ
  acceptingNewWrites : Bool
  policyMaxFileSize : ℤ
  exclusion : Option TargetExclusionReason

structure PlacementRule where
  id : ℕ
  name : String
  description : String
  priority : ℤ
  isEnabled : Bool
  matcher : PlacementMatcher
  selectionMode : PlacementSelectionMode
  unavailableBehavior : PlacementUnavailableBehavior
  targets : List PlacementTarget

structure CompiledPlacementProfile where
  id : ℕ
  revision : ℤ
  isEnabled : Bool
  admission : StorageAdmissionConstraints
  executionPreference : UploadExecutionPreference
  rules : List PlacementRule

/-! ### Compilation -/

/-- The errors are texts; `normalizeExtensionFilter` is a parameter. -/
def normalizeUniqueExtensions (normalizeExtensionFilter : String → Except String String) :
    List String → List String → Except String (List String)
  | [], result => .ok result
  | value :: values, result =>
    match normalizeExtensionFilter value with
    | .error e => .error e
    | .ok normalized =>
      normalizeUniqueExtensions normalizeExtensionFilter values
        (if normalized ∈ result then result else result ++ [normalized])

def validateCategories : List FileCategory → List String → Except String Unit
  | [], _ => .ok ()
  | category :: categories, seen =>
    if category.asStr ∈ seen then .error ("duplicate category " ++ category.asStr)
    else validateCategories categories (category.asStr :: seen)

def compileAdmission (normalizeExtensionFilter : String → Except String String)
    (admission : StorageAdmissionConstraints) : Except String StorageAdmissionConstraints :=
  match normalizeUniqueExtensions normalizeExtensionFilter admission.allowedExtensions [] with
  | .error e => .error e
  | .ok allowedExtensions =>
    match normalizeUniqueExtensions normalizeExtensionFilter admission.deniedExtensions [] with
    | .error e => .error e
    | .ok deniedExtensions =>
      match validateCategories admission.allowedCategories [] with
      | .error e => .error e
      | .ok () =>
        if admission.maxFileSize < 0 then .error "admission max_file_size must be non-negative"
        else .ok { admission with allowedExtensions, deniedExtensions }

def compileMatcher (normalizeExtensionFilter : String → Except String String) (matcher : PlacementMatcher) :
    Except String PlacementMatcher :=
  match normalizeUniqueExtensions normalizeExtensionFilter matcher.extensions [] with
  | .error e => .error e
  | .ok extensions =>
    match normalizeUniqueExtensions normalizeExtensionFilter matcher.compoundExtensions [] with
    | .error e => .error e
    | .ok compoundExtensions =>
      match validateCategories matcher.categories [] with
      | .error e => .error e
      | .ok () =>
        if matcher.minFileSize < 0 ∨ matcher.maxFileSize < 0 then .error "matcher file sizes must be non-negative"
        else if matcher.maxFileSize > 0 ∧ matcher.maxFileSize ≤ matcher.minFileSize then
          .error "matcher max_file_size must be greater than min_file_size"
        else .ok { matcher with extensions, compoundExtensions }

end AsterDrive.Placement
