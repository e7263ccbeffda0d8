import AsterDrive.Lib.Batches
import AsterDrive.Lib.Table

/-!
# Db.UserProperties — the properties of a file and their snapshots

An entity has properties, one for each namespace and name; those of the namespaces `DAV:` and `system.…` are protected,
the others are the user's. A revision keeps a snapshot of the user's properties of its file.
-/

namespace AsterDrive.Db.UserProperties

open List Batches

inductive EntityType
  | file | folder
  deriving DecidableEq

/-- `entity_property::Model`, without its id. -/
structure EntityProperty where
  entityType : EntityType
  entityId : ℕ
  propertyNamespace : String
  propertyName : String
  value : Option String

open EntityProperty

/-- `idx_entity_properties_unique` -/
def EntityProperty.key (p : EntityProperty) : EntityType × ℕ × String × String :=
  (p.entityType, p.entityId, p.propertyNamespace, p.propertyName)

structure FileRevisionProperty where
  revisionId : ℕ
  propertyNamespace : String
  propertyName : String
  xmlValue : Option String
  deriving DecidableEq

def FileRevisionProperty.key (p : FileRevisionProperty) : ℕ × String × String :=
  (p.revisionId, p.propertyNamespace, p.propertyName)

abbrev Properties := Table key

abbrev Snapshots := Table FileRevisionProperty.key

def isSystemNamespace (propertyNamespace : String) : Bool := "system.".toList.isPrefixOf propertyNamespace.toList

def isDavNamespace (propertyNamespace : String) : Bool := propertyNamespace = "DAV:"

def isProtectedNamespace (propertyNamespace : String) : Bool :=
  isDavNamespace propertyNamespace || isSystemNamespace propertyNamespace

/-- A property of the user on this file. -/
def EntityProperty.isUserOf (p : EntityProperty) (fileId : ℕ) : Bool :=
  p.entityType = .file && p.entityId = fileId && !isProtectedNamespace p.propertyNamespace

def EntityProperty.snapshot (p : EntityProperty) (revisionId : ℕ) : FileRevisionProperty :=
  ⟨revisionId, p.propertyNamespace, p.propertyName, p.value⟩

def FileRevisionProperty.restored (p : FileRevisionProperty) (fileId : ℕ) : EntityProperty :=
  ⟨.file, fileId, p.propertyNamespace, p.propertyName, p.xmlValue⟩

/-- The order in which the database returns rows. -/
structure RowOrder (α : Type) where
  sort : List α → List α
  perm : ∀ rows, (sort rows).Perm rows

def RowOrder.stored {α : Type} : RowOrder α := ⟨id, fun rows => .refl rows⟩

/-- `property_repo::find_by_entities` for files; the ids are asked in chunks of five hundred. -/
def findByEntities (order : RowOrder EntityProperty) (t : Properties) (fileIds : List ℕ) : List EntityProperty :=
  (Batches.chunks 500 (Batches.sortDedup fileIds)).flatMap fun chunk =>
    order.sort (t.rows.filter fun p => p.entityType = .file && decide (p.entityId ∈ chunk))

def findUserProperties (order : RowOrder EntityProperty) (t : Properties) (fileIds : List ℕ) : List EntityProperty :=
  (findByEntities order t fileIds).filter fun p => !isProtectedNamespace p.propertyNamespace

section

variable {order : RowOrder EntityProperty} {t : Properties} {fileIds : List ℕ} {p : EntityProperty} {fileId : ℕ}

theorem EntityProperty.isUserOf_iff :
    p.isUserOf fileId = true ↔ p.entityType = .file ∧ p.entityId = fileId ∧ isProtectedNamespace p.propertyNamespace = false := by
  unfold isUserOf
  simp [and_assoc]

theorem FileRevisionProperty.restored_isUserOf {q : FileRevisionProperty}
    (h : isProtectedNamespace q.propertyNamespace = false) : (q.restored fileId).isUserOf fileId = true :=
  (isUserOf_iff).mpr ⟨rfl, rfl, h⟩

theorem findByEntities_perm :
    (findByEntities order t fileIds).Perm (t.rows.filter fun p => p.entityType = .file && decide (p.entityId ∈ fileIds)) := by
  have horder : (findByEntities order t fileIds).Perm ((chunks 500 (sortDedup fileIds)).flatMap fun chunk =>
      t.rows.filter fun p => p.entityType = .file && decide (p.entityId ∈ chunk)) :=
    Perm.flatMap_left _ fun chunk _ => order.perm _
  have hflatten : (chunks 500 (sortDedup fileIds)).flatten.Nodup := by
    rw [flatten_chunks]
    exact nodup_sortDedup
  have hapart : (chunks 500 (sortDedup fileIds)).Pairwise fun c c' => ∀ p ∈ t.rows,
      (p.entityType = .file && decide (p.entityId ∈ c)) → ¬ (p.entityType = .file && decide (p.entityId ∈ c')) := by
    refine (nodup_flatten.mp hflatten).2.imp fun {c c'} hdisjoint p _ hp hp' => ?_
    simp only [Bool.and_eq_true, decide_eq_true_eq] at hp hp'
    exact hdisjoint hp.2 hp'.2
  refine horder.trans ((flatMap_filter_perm hapart).trans (.of_eq ?_))
  apply filter_congr
  intro p _
  have hmem : (∃ c ∈ chunks 500 (sortDedup fileIds), p.entityId ∈ c) ↔ p.entityId ∈ fileIds := by
    rw [← mem_flatten, flatten_chunks, mem_sortDedup]
  apply Bool.eq_iff_iff.mpr
  simp only [any_eq_true, Bool.and_eq_true, decide_eq_true_eq, ← hmem]
  constructor
  · rintro ⟨c, hc, hfile, hid⟩
    exact ⟨hfile, c, hc, hid⟩
  · rintro ⟨hfile, c, hc, hid⟩
    exact ⟨c, hc, hfile, hid⟩

theorem findUserProperties_perm : (findUserProperties order t fileIds).Perm
      (t.rows.filter fun p => p.entityType = .file && decide (p.entityId ∈ fileIds) &&
        !isProtectedNamespace p.propertyNamespace) := by
  refine ((findByEntities_perm).filter _).trans (.of_eq ?_)
  rw [filter_filter]
  apply filter_congr
  intro p _
  exact Bool.and_comm _ _

theorem mem_findUserProperties :
    p ∈ findUserProperties order t fileIds ↔ p ∈ t.rows ∧ ∃ fileId ∈ fileIds, p.isUserOf fileId = true := by
  rw [(findUserProperties_perm).mem_iff, mem_filter]
  simp only [isUserOf_iff, Bool.and_eq_true, decide_eq_true_eq, Bool.not_eq_true']
  constructor
  · rintro ⟨hmem, ⟨hfile, hid⟩, huser⟩
    exact ⟨hmem, p.entityId, hid, hfile, rfl, huser⟩
  · rintro ⟨hmem, fileId, hid, hfile, rfl, huser⟩
    exact ⟨hmem, ⟨hfile, hid⟩, huser⟩

theorem nodup_findUserProperties : ((findUserProperties order t fileIds).map key).Nodup := by
  refine (Perm.nodup_iff ((findUserProperties_perm).map _)).mpr ?_
  exact t.unique.sublist (List.filter_sublist.map _)

theorem insertAll_snapshots {snapshots : Snapshots} {revisionOf : ℕ → ℕ}
    (hinj : ∀ a ∈ fileIds, ∀ b ∈ fileIds, revisionOf a = revisionOf b → a = b)
    (hfresh : ∀ q ∈ snapshots.rows, ∀ a ∈ fileIds, q.revisionId ≠ revisionOf a) :
    ∃ snapshots', snapshots.insertAll
      ((findUserProperties order t fileIds).map fun p => p.snapshot (revisionOf p.entityId)) = some snapshots' := by
  have hnew : (((findUserProperties order t fileIds).map fun p => p.snapshot (revisionOf p.entityId)).map
      FileRevisionProperty.key).Nodup := by
    rw [map_map]
    refine Nodup.map_on (fun p hp p' hp' hkey => ?_) (Nodup.of_map _ nodup_findUserProperties)
    obtain ⟨-, a, ha, hof⟩ := (mem_findUserProperties).mp hp
    obtain ⟨-, b, hb, hof'⟩ := (mem_findUserProperties).mp hp'
    obtain ⟨htype, hentity, -⟩ := (isUserOf_iff).mp hof
    obtain ⟨htype', hentity', -⟩ := (isUserOf_iff).mp hof'
    simp only [Function.comp_apply, FileRevisionProperty.key, snapshot, Prod.mk.injEq] at hkey
    have hfile : p.entityId = p'.entityId := hinj _ (hentity ▸ ha) _ (hentity' ▸ hb) hkey.1
    refine inj_on_of_nodup_map nodup_findUserProperties hp hp' ?_
    unfold key
    rw [htype, htype', hfile, hkey.2.1, hkey.2.2]
  refine Table.insertAll_succeeds ?_
  rw [map_append]
  refine nodup_append.mpr ⟨snapshots.unique, hnew, ?_⟩
  rintro _ hold _ hadded rfl
  obtain ⟨q, hq, hkey⟩ := mem_map.mp hold
  obtain ⟨_, htaken, hsame⟩ := mem_map.mp hadded
  obtain ⟨p, hp, rfl⟩ := mem_map.mp htaken
  obtain ⟨-, a, ha, hof⟩ := (mem_findUserProperties).mp hp
  obtain ⟨-, rfl, -⟩ := (isUserOf_iff).mp hof
  exact hfresh q hq _ ha (congrArg Prod.fst (hkey.trans hsame.symm))

end

end AsterDrive.Db.UserProperties
