import AsterDrive.Webdav.LockSystem

/-!
# Canonical — the places of resources below a mount, and their paths

Seen from a mount, a folder has the names of the folders that lead to it, and a file has its own name
behind those of its folder: its `Place`. The canonical path of a place ends in a slash for a folder and
does not for a file.

The module goes both ways. `reaches_iff` is about texts: on canonical paths, the tests of the protocol's
evaluator compare places. `At.eq_iff` and `At.over_iff` are about the tree: places are equal or one above
the other exactly if the resources are.
-/

namespace AsterDrive.Webdav

open Db Files Locks List Option Separated

/-- A name that can stand in a path. -/
def ValidName (name : String) : Prop := name ≠ "" ∧ '/' ∉ name.toList

/-- The names that lead to a folder, and for a file its own. -/
inductive Place
  | collection (names : List String)
  | file (names : List String) (name : String)

namespace Place

/-- The names in front of the last one that is no folder. -/
def names : Place → List String
  | collection names => names
  | file names _ => names

/-- What stands behind the last slash. -/
def last : Place → List Char
  | collection _ => []
  | file _ name => name.toList

/-- The canonical path. -/
def text (a : Place) : String := String.ofList ('/' :: (Separated.joined '/' (a.names.map String.toList) ++ a.last))

def Valid (a : Place) : Prop :=
  (∀ n ∈ a.names, ValidName n) ∧
    match a with
    | collection _ => True
    | file _ name => ValidName name

/-- The folder at `a` is above what is at `b`. -/
def Over : Place → Place → Prop
  | collection xs, collection ys => xs <+: ys ∧ xs ≠ ys
  | collection xs, file ys _ => xs <+: ys
  | file _ _, _ => False

/-! ### Texts -/

section

variable {a b : Place} {xs ys zs : List String} {x y : String}

theorem toList_text (a : Place) :
    a.text.toList = '/' :: (Separated.joined '/' (a.names.map String.toList) ++ a.last) := by
  simp [text]

theorem Valid.slash_free (h : a.Valid) : ∀ w ∈ a.names.map String.toList, '/' ∉ w := by
  intro w hw
  obtain ⟨n, hn, rfl⟩ := List.mem_map.mp hw
  exact (h.1 n hn).2

theorem Valid.last_slash_free (h : a.Valid) : '/' ∉ a.last := by
  cases a with
  | collection xs => simp [last]
  | file xs x => exact h.2.2

theorem last_eq_nil (h : a.Valid) : a.last = [] ↔ ∃ xs, a = collection xs := by
  cases a with
  | collection xs => simp [last]
  | file xs x =>
    have hne : x ≠ "" := h.2.1
    simp [last, hne]

theorem map_toList_inj (h : xs.map String.toList = ys.map String.toList) : xs = ys :=
  map_injective_iff.mpr (fun _ _ => String.toList_inj.mp) h

theorem map_toList_prefix : xs.map String.toList <+: ys.map String.toList ↔ xs <+: ys := by
  constructor
  · rintro ⟨t, ht⟩
    obtain ⟨us, vs, rfl, hus, -⟩ := map_eq_append_iff.mp ht.symm
    rw [map_toList_inj hus]
    exact prefix_append _ _
  · rintro ⟨t, rfl⟩
    simp

theorem text_inj (ha : a.Valid) (hb : b.Valid) (h : a.text = b.text) : a = b := by
  have h := congrArg String.toList h
  rw [toList_text, toList_text, List.cons.injEq] at h
  obtain ⟨hnames, hlast⟩ := joined_append_inj ha.slash_free hb.slash_free ha.last_slash_free hb.last_slash_free h.2
  have hnames := map_toList_inj hnames
  cases a with
  | collection xs =>
    obtain ⟨ys, rfl⟩ := (last_eq_nil hb).mp hlast.symm
    exact congrArg _ hnames
  | file xs x =>
    cases b with
    | collection ys =>
      obtain ⟨zs, hzs⟩ := (last_eq_nil ha).mp hlast
      cases hzs
    | file ys y =>
      obtain rfl : xs = ys := hnames
      rw [String.toList_inj.mp hlast]

theorem startsWith_collection (hx : ∀ n ∈ xs, ValidName n) (hb : b.Valid) :
    startsWith b.text (collection xs).text ↔ xs <+: b.names := by
  have hxs : (collection xs).Valid := ⟨hx, trivial⟩
  unfold startsWith
  have hbegins := joined_prefix_iff hxs.slash_free hb.slash_free hb.last_slash_free
  have hlast : (collection xs).last = [] := rfl
  rw [ isPrefixOf_iff_prefix, toList_text, toList_text, cons_prefix_cons, hlast, append_nil, hbegins, map_toList_prefix]
  exact and_iff_right rfl

theorem text_file_slash (xs : List String) (x : String) : (file xs x).text ++ "/" = (collection (xs ++ [x])).text := by
  refine String.toList_inj.mp ?_
  rw [String.toList_append, toList_text, toList_text]
  simp [names, last, joined_append]

theorem endsWithSlash_collection (xs : List String) : endsWithSlash (collection xs).text := by
  unfold endsWithSlash
  rw [toList_text]
  rcases eq_nil_or_concat xs with rfl | ⟨zs, z, rfl⟩
  · simp [names, last]
  · simp [names, last, joined_append, getLast?_cons]

theorem not_endsWithSlash_file (h : (file xs x).Valid) : ¬ endsWithSlash (file xs x).text := by
  unfold endsWithSlash
  rw [toList_text]
  have hne : x.toList ≠ [] := by
    have := h.2.1
    simpa using this
  have hlast : ('/' :: (joined '/' (xs.map String.toList) ++ x.toList)).getLast? = x.toList.getLast? := by
    rw [getLast?_cons, getLast?_append_of_ne_nil _ hne]
    cases hx : x.toList.getLast? with
    | none => exact absurd (getLast?_eq_none_iff.mp hx) hne
    | some c => rfl
  show ¬ decide (_ = some '/') = true
  rw [decide_eq_true_eq]
  show ¬ ('/' :: (joined '/' (xs.map String.toList) ++ x.toList)).getLast? = some '/'
  rw [hlast]
  intro hslash
  exact h.2.2 (mem_of_getLast? hslash)

theorem root_text : "/" = (collection []).text := by decide

theorem text_eq_root (ha : a.Valid) : a.text = "/" ↔ a = collection [] := by
  exact ⟨fun h => text_inj ha ⟨by simp [names], trivial⟩ h, fun h => h ▸ rfl⟩

theorem pathSegments_text (ha : a.Valid) :
    pathSegments a.text = a.names ++ if a.last = [] then [] else [String.ofList a.last] := by
  unfold pathSegments
  have hwords : ∀ w ∈ a.names.map String.toList, '/' ∉ w ∧ w ≠ [] := by
    intro w hw
    obtain ⟨n, hn, rfl⟩ := List.mem_map.mp hw
    have hvalid := ha.1 n hn
    refine ⟨hvalid.2, ?_⟩
    simpa using hvalid.1
  rw [toList_text, words_cons, words_joined hwords ha.last_slash_free]
  split_ifs <;> simp

/-! ### The tests on canonical paths -/

theorem pathIsAncestor_collection (hx : ∀ n ∈ xs, ValidName n) (hb : b.Valid) :
    pathIsAncestor (collection xs).text b.text ↔ (collection xs).Over b := by
  have hxs : (collection xs).Valid := ⟨hx, trivial⟩
  have hstart := startsWith_collection hx hb
  by_cases hsame : (collection xs).text = b.text
  · obtain rfl := text_inj hxs hb hsame
    simp [pathIsAncestor, Over]
  · have hanc : pathIsAncestor (collection xs).text b.text = startsWith b.text (collection xs).text := by
      unfold pathIsAncestor
      split_ifs with hroot hslash
      · rw [hroot]
      · rfl
      · exact absurd (endsWithSlash_collection xs) hslash
    rw [hanc, hstart]
    cases b with
    | collection ys =>
      have hne : xs ≠ ys := fun h => hsame (h ▸ rfl)
      exact ⟨fun h => ⟨h, hne⟩, And.left⟩
    | file ys y => exact Iff.rfl

theorem pathIsAncestor_file (ha : (file xs x).Valid) (hb : b.Valid) :
    pathIsAncestor (file xs x).text b.text ↔ xs ++ [x] <+: b.names := by
  have hnames : ∀ n ∈ xs ++ [x], ValidName n := by
    intro n hn
    rcases mem_append.mp hn with hn | hn
    · exact ha.1 n hn
    · exact mem_singleton.mp hn ▸ ha.2
  have hroot : (file xs x).text ≠ "/" := by
    rw [Ne, text_eq_root ha]
    simp
  have hstart := startsWith_collection hnames hb
  unfold pathIsAncestor
  rw [if_neg hroot, if_neg (not_endsWithSlash_file ha), text_file_slash]
  split_ifs with hsame
  · obtain rfl := text_inj ha hb hsame
    rw [false_iff]
    intro hbegins
    have hlen := hbegins.length_le
    simp only [names, length_append, length_singleton] at hlen
    omega
  · exact hstart

theorem text_collection_concat (xs : List String) (x : String) :
    (collection xs).text ++ x ++ "/" = (collection (xs ++ [x])).text := by
  refine String.toList_inj.mp ?_
  rw [String.toList_append, String.toList_append, toList_text, toList_text]
  simp [names, last, joined_append]

theorem mem_collectionsFrom {s : String} {segments : List String} : s ∈ collectionsFrom (collection xs).text segments ↔
      ∃ zs, zs <+: segments ∧ zs ≠ [] ∧ s = (collection (xs ++ zs)).text := by
  induction segments generalizing xs with
  | nil => simp [collectionsFrom]
  | cons x rest ih =>
    rw [collectionsFrom, mem_cons, text_collection_concat, ih]
    constructor
    · rintro (rfl | ⟨zs, hzs, -, rfl⟩)
      · exact ⟨[x], by simp, by simp, rfl⟩
      · exact ⟨x :: zs, cons_prefix_cons.mpr ⟨rfl, hzs⟩, by simp, by simp⟩
    · rintro ⟨zs, hzs, hne, rfl⟩
      cases zs with
      | nil => exact absurd rfl hne
      | cons z zs =>
        obtain ⟨rfl, hrest⟩ := cons_prefix_cons.mp hzs
        by_cases hnil : zs = []
        · exact .inl (by rw [hnil])
        · exact .inr ⟨zs, hrest, hnil, by simp⟩

/-- The paths that are looked up as ancestors: the folders that the segments lead through, and a path
that does not end in a slash itself. -/
theorem mem_pathAncestors {s path : String} :
    s ∈ pathAncestors path ↔ (∃ zs, zs <+: pathSegments path ∧ s = (collection zs).text) ∨
      s = path ∧ path ≠ "/" ∧ ¬ endsWithSlash path := by
  unfold pathAncestors
  rw [mem_append, mem_cons]
  refine or_congr ?_ ?_
  · have hroot : collectionsFrom "/" (pathSegments path) =
        collectionsFrom (collection []).text (pathSegments path) := by rw [← root_text]
    rw [hroot, mem_collectionsFrom]
    constructor
    · rintro (rfl | ⟨zs, hzs, -, rfl⟩)
      · exact ⟨[], nil_prefix, root_text⟩
      · exact ⟨zs, hzs, rfl⟩
    · rintro ⟨zs, hzs, rfl⟩
      by_cases hnil : zs = []
      · exact .inl (by rw [hnil, ← root_text])
      · exact .inr ⟨zs, hzs, hnil, rfl⟩
  · split_ifs with h
    · simp [h.1, h.2]
    · simp only [not_mem_nil, false_iff]
      exact fun ⟨_, hne⟩ => h hne

theorem names_prefix_segments (ha : a.Valid) : a.names <+: pathSegments a.text := by
  rw [pathSegments_text ha]
  exact prefix_append _ _

theorem text_mem_pathAncestors (ha : a.Valid) : a.text ∈ pathAncestors a.text := by
  rw [mem_pathAncestors]
  cases a with
  | collection xs => exact .inl ⟨xs, names_prefix_segments ha, rfl⟩
  | file xs x =>
    refine .inr ⟨rfl, ?_, not_endsWithSlash_file ha⟩
    rw [Ne, text_eq_root ha]
    simp

theorem file_mem_pathAncestors (ha : (file xs x).Valid) {path : String}
    (h : (file xs x).text ∈ pathAncestors path) : (file xs x).text = path := by
  rcases (mem_pathAncestors).mp h with ⟨zs, -, hzs⟩ | ⟨heq, -⟩
  · have hslash := endsWithSlash_collection zs
    rw [← hzs] at hslash
    exact absurd hslash (not_endsWithSlash_file ha)
  · exact heq

end

end Place

/-! ### Overlap -/

section

variable {q p : String} {qd pd : Bool}

theorem startsWith_append {s x : String} (y : String) (h : startsWith s (x ++ y)) : startsWith s x := by
  unfold startsWith at h ⊢
  rw [ isPrefixOf_iff_prefix, String.toList_append] at h
  rw [ isPrefixOf_iff_prefix]
  exact (prefix_append _ _).trans h

theorem pathIsAncestor_imp (h : pathIsAncestor p q) : p ≠ q ∧ startsWith q p := by
  unfold pathIsAncestor at h
  split_ifs at h with hsame hroot hslash
  · exact ⟨hsame, hroot ▸ h⟩
  · exact ⟨hsame, h⟩
  · exact ⟨hsame, startsWith_append _ h⟩

theorem startsWith_antisymm (h : startsWith q p) (h' : startsWith p q) : p = q := by
  unfold startsWith at h h'
  rw [ isPrefixOf_iff_prefix] at h h'
  exact String.toList_inj.mp (h.eq_of_length_le h'.length_le)

theorem lockPathsOverlap_iff : lockPathsOverlap q qd p pd ↔
    q = p ∨ pathIsAncestor q p ∧ qd ∨ pathIsAncestor p q ∧ pd := by
  unfold lockPathsOverlap
  split_ifs with hsame hup hdown
  · simp [hsame]
  · -- the two tests exclude each other
    have hdown : ¬ pathIsAncestor p q := fun h =>
      hsame (startsWith_antisymm (pathIsAncestor_imp h).2 (pathIsAncestor_imp hup).2).symm
    simp [hsame, hup, hdown]
  · simp [hsame, hup, hdown]
  · simp [hsame, hup, hdown]

/-- A row is found by one of the two queries and overlaps. -/
def reaches (q : String) (qd : Bool) (p : String) (pd withPrefix : Bool) : Bool :=
  (decide (q ∈ pathAncestors p) || withPrefix && startsWith q p) && lockPathsOverlap q qd p pd

/-- **The evaluator of the protocol compares places.** A lock counts if it is at the place of the
request, if it is deep and above it, or if the request is deep and above the lock. The request for a
file must not be for the name of a folder that the lock lies in. -/
theorem reaches_iff {a b : Place} {withPrefix : Bool} (ha : a.Valid) (hb : b.Valid)
    (hclash : ∀ ys y, b = .file ys y → ¬ ys ++ [y] <+: a.names) (hdeep : pd = true → withPrefix = true) :
    reaches a.text qd b.text pd withPrefix ↔ a = b ∨ a.Over b ∧ qd ∨ b.Over a ∧ pd := by
  unfold reaches
  rw [Bool.and_eq_true, Bool.or_eq_true, decide_eq_true_eq, Bool.and_eq_true, lockPathsOverlap_iff]
  have hdown : pathIsAncestor b.text a.text ↔ b.Over a := by
    cases b with
    | collection ys => exact Place.pathIsAncestor_collection hb.1 ha
    | file ys y =>
      rw [Place.pathIsAncestor_file hb ha]
      exact ⟨fun h => absurd h (hclash ys y rfl), False.elim⟩
  constructor
  · rintro ⟨hfetch, hsame | ⟨hup, hqd⟩ | ⟨hanc, hpd⟩⟩
    · exact .inl (Place.text_inj ha hb hsame)
    · cases a with
      | collection xs => exact .inr (.inl ⟨(Place.pathIsAncestor_collection ha.1 hb).mp hup, hqd⟩)
      | file xs x =>
        -- the path of a file is not looked up as an ancestor, and it does not start with the request
        have hne := (pathIsAncestor_imp hup).1
        rcases hfetch with hmem | ⟨-, hstart⟩
        · exact absurd (Place.file_mem_pathAncestors ha hmem) hne
        · exact absurd (startsWith_antisymm hstart (pathIsAncestor_imp hup).2).symm hne
    · exact .inr (.inr ⟨hdown.mp hanc, hpd⟩)
  · rintro (rfl | ⟨hover, hqd⟩ | ⟨hover, hpd⟩)
    · exact ⟨.inl (Place.text_mem_pathAncestors ha), .inl rfl⟩
    · cases a with
      | file xs x => exact hover.elim
      | collection xs =>
        refine ⟨.inl (Place.mem_pathAncestors.mpr (.inl ⟨xs, ?_, rfl⟩)), .inr (.inl ⟨?_, hqd⟩)⟩
        · have hnames : xs <+: b.names := by
            cases b with
            | collection ys => exact hover.1
            | file ys y => exact hover
          exact hnames.trans (Place.names_prefix_segments hb)
        · exact (Place.pathIsAncestor_collection ha.1 hb).mpr hover
    · have hanc := hdown.mpr hover
      exact ⟨.inr ⟨hdeep hpd, (pathIsAncestor_imp hanc).2⟩, .inr (.inr ⟨hanc, hpd⟩)⟩

end

/-! ### Places of resources -/

/-- The folder with a given row number, and the workspace root without one. -/
def rootOf (node : Option ℕ) : LockRoot := node.elim .workspaceRoot .folder

/-- The names that lead from the mount to a folder; `none` is the root of the workspace. -/
inductive FolderAt (t : Folders) (w : WorkspaceResourceScope) (mount : Option ℕ) : Option ℕ → List String → Prop
  | mount : FolderAt t w mount mount []
  | child {parent : Option ℕ} {names : List String} {f : Folder} (h : FolderAt t w mount parent names)
      (hf : f ∈ t.rows) (hact : f.ActiveIn w) (hparent : f.parentId = parent) :
      FolderAt t w mount (some f.id) (names ++ [f.name])

/-- The place of a resource, seen from the mount. -/
inductive At (t : Tree) (w : WorkspaceResourceScope) (mount : Option ℕ) : LockRoot → Place → Prop
  | collection {node : Option ℕ} {names : List String} (h : FolderAt t.folders w mount node names) :
      At t w mount (rootOf node) (.collection names)
  | file {f : File} {parent : Option ℕ} {names : List String} (h : FolderAt t.folders w mount parent names)
      (hf : f ∈ t.files.rows) (hact : File.ActiveIn f w) (hparent : f.folderId = parent) :
      At t w mount (.file f.id) (.file names f.name)

/-- What the unique indexes and the name validation promise about what is not in the trash. -/
structure Named (t : Tree) (w : WorkspaceResourceScope) : Prop where
  folderNames : ∀ f ∈ t.folders.rows, f.ActiveIn w → ValidName f.name
  fileNames : ∀ f ∈ t.files.rows, File.ActiveIn f w → ValidName f.name
  folders : ∀ f ∈ t.folders.rows, ∀ g ∈ t.folders.rows, f.ActiveIn w → g.ActiveIn w →
    f.parentId = g.parentId → f.name = g.name → f.id = g.id
  files : ∀ f ∈ t.files.rows, ∀ g ∈ t.files.rows, File.ActiveIn f w → File.ActiveIn g w →
    f.folderId = g.folderId → f.name = g.name → f.id = g.id

section

variable {t : Tree} {w : WorkspaceResourceScope} {mount node node' : Option ℕ} {xs ys : List String}

theorem FolderAt.nil_iff : FolderAt t.folders w mount node [] ↔ node = mount := by
  constructor
  · intro h
    generalize hnil : ([] : List String) = names at h
    cases h with
    | mount => rfl
    | child h hf hact hparent => simp at hnil
  · rintro rfl
    exact .mount

theorem FolderAt.valid (hn : Named t w) (h : FolderAt t.folders w mount node xs) : ∀ n ∈ xs, ValidName n := by
  induction h with
  | mount => simp
  | @child parent names f h hf hact hparent ih =>
    intro n hn'
    rcases mem_append.mp hn' with hn' | hn'
    · exact ih n hn'
    · exact mem_singleton.mp hn' ▸ hn.folderNames f hf hact

theorem FolderAt.unique (hn : Named t w) (h : FolderAt t.folders w mount node xs)
    (h' : FolderAt t.folders w mount node' xs) : node = node' := by
  induction h generalizing node' with
  | mount => exact ((FolderAt.nil_iff).mp h').symm
  | @child parent names f h hf hact hparent ih =>
    generalize hnames : names ++ [f.name] = all at h'
    cases h' with
    | mount => simp at hnames
    | @child parent' names' g h' hg hact' hparent' =>
      obtain ⟨rfl, hname⟩ := append_inj' hnames rfl
      obtain rfl := ih h'
      have hid := hn.folders f hf g hg hact hact' (hparent.trans hparent'.symm) (List.cons.inj hname).1
      rw [hid]

theorem FolderAt.split (h : FolderAt t.folders w mount node (xs ++ ys)) : ∃ node', FolderAt t.folders w mount node' xs ∧
      (ys = [] ∧ node' = node ∨ ys ≠ [] ∧ Over t (rootOf node') (rootOf node)) := by
  generalize hall : xs ++ ys = all at h
  induction h generalizing ys with
  | mount =>
    obtain ⟨rfl, rfl⟩ := append_eq_nil_iff.mp hall
    exact ⟨mount, .mount, .inl ⟨rfl, rfl⟩⟩
  | @child parent names f h hf hact hparent ih =>
    rcases eq_nil_or_concat ys with rfl | ⟨zs, z, rfl⟩
    · rw [append_nil] at hall
      exact ⟨some f.id, hall ▸ .child h hf hact hparent, .inl ⟨rfl, rfl⟩⟩
    · rw [concat_eq_append, ← append_assoc] at hall
      obtain ⟨hnames, -⟩ := append_inj' hall rfl
      obtain ⟨node', hnode', hrest⟩ := ih hnames
      refine ⟨node', hnode', .inr ⟨by simp, ?_⟩⟩
      have hget := Table.get_of_mem hf
      have hup : parentOf t.folders f.id = parent := (Forest.parentIn_of_lookup hget).trans hparent
      cases node' with
      | none => trivial
      | some k =>
        show Forest.Above (parentOf t.folders) k f.id
        rcases hrest with ⟨-, rfl⟩ | ⟨-, hover⟩
        · exact .of_parent hup
        · cases parent with
          | none => exact hover.elim
          | some p => exact Forest.Above.trans hover (.of_parent hup)

theorem FolderAt.names_unique (hforest : LiveForest w t.folders) (h : FolderAt t.folders w mount node xs)
    (h' : FolderAt t.folders w mount node ys) : xs = ys := by
  -- the mount is not below itself
  have hself : ∀ {names : List String}, FolderAt t.folders w mount mount names → names = [] := by
    intro names hm
    by_contra hne
    have hm : FolderAt t.folders w mount mount ([] ++ names) := hm
    obtain ⟨node', hnode', ⟨hnil, -⟩ | ⟨-, hover⟩⟩ := hm.split
    · exact hne hnil
    · obtain rfl := (FolderAt.nil_iff).mp hnode'
      cases node' with
      | none => exact hover.elim
      | some k => exact hforest.acyclic k hover
  induction h generalizing ys with
  | mount => exact (hself h').symm
  | @child parent names f h hf hact hparent ih =>
    generalize hnode : some f.id = node at h'
    cases h' with
    | mount =>
      subst hnode
      exact hself (.child h hf hact hparent)
    | @child parent' names' g h' hg hact' hparent' =>
      obtain rfl := Table.eq_of_key hf hg (some.inj hnode)
      obtain rfl := hparent.symm.trans hparent'
      rw [ih h']

theorem FolderAt.over_iff (hn : Named t w) (hforest : LiveForest w t.folders)
    (h : FolderAt t.folders w mount node xs) (h' : FolderAt t.folders w mount node' ys) :
    Over t (rootOf node) (rootOf node') ↔ xs <+: ys ∧ xs ≠ ys := by
  constructor
  · intro hover
    induction h' with
    | mount =>
      -- nothing at or below the mount is above it
      exfalso
      have hsplit : FolderAt t.folders w mount node ([] ++ xs) := h
      obtain ⟨m, hm, hrest⟩ := hsplit.split
      obtain rfl := (FolderAt.nil_iff).mp hm
      cases hnode : node with
      | none =>
        rcases hrest with ⟨-, heq⟩ | ⟨-, hover'⟩
        · rw [heq, hnode] at hover
          exact hover
        · rw [hnode] at hover'
          cases m <;> exact hover'
      | some k =>
        rw [hnode] at hover
        cases m with
        | none => exact hover
        | some j =>
          rcases hrest with ⟨-, heq⟩ | ⟨-, hover'⟩
          · obtain rfl : j = k := some.inj (heq.trans hnode)
            exact hforest.acyclic j hover
          · rw [hnode] at hover'
            exact hforest.acyclic j (Forest.Above.trans hover' hover)
    | @child parent names f h' hf hact hparent ih =>
      have hget := Table.get_of_mem hf
      have hup : parentOf t.folders f.id = parent := (Forest.parentIn_of_lookup hget).trans hparent
      have hmore : ∀ {zs : List String}, zs <+: names → zs <+: names ++ [f.name] ∧ zs ≠ names ++ [f.name] := by
        intro zs hzs
        refine ⟨hzs.trans (prefix_append _ _), fun heq => ?_⟩
        have hlen := hzs.length_le
        simp only [heq, length_append, length_singleton] at hlen
        omega
      cases hnode : node with
      | none =>
        -- the workspace root is below no mount but itself
        have hnil : xs = [] := by
          rw [hnode] at h
          cases h with
          | mount => rfl
        rw [hnil]
        exact hmore nil_prefix
      | some k =>
        rw [hnode] at hover
        obtain ⟨p, hp, hkp⟩ := Forest.above_iff.mp hover
        obtain rfl : parent = some p := hup.symm.trans hp
        rcases Forest.atOrAbove_iff.mp hkp with rfl | habove
        · rw [hnode] at h
          exact hmore (h.names_unique hforest h' ▸ prefix_refl _)
        · refine hmore (ih ?_).1
          rw [hnode]
          exact habove
  · rintro ⟨⟨zs, rfl⟩, hne⟩
    obtain ⟨m, hm, ⟨hnil, -⟩ | ⟨-, hover⟩⟩ := FolderAt.split h'
    · simp [hnil] at hne
    · obtain rfl := h.unique hn hm
      exact hover

theorem rootOf_inj (h : rootOf node = rootOf node') : node = node' := by
  cases node <;> cases node' <;> simp_all [rootOf]

theorem rootOf_ne_file {i : ℕ} : rootOf node ≠ .file i := by
  cases node <;> simp [rootOf]

variable {r r' : LockRoot} {a b : Place}

theorem At.valid (hn : Named t w) (h : At t w mount r a) : a.Valid := by
  cases h with
  | collection h => exact ⟨h.valid hn, trivial⟩
  | @file f parent names h hf hact hparent => exact ⟨h.valid hn, hn.fileNames f hf hact⟩

theorem At.exists_folderAt (h : At t w mount r a) : ∃ k, FolderAt t.folders w mount k a.names := by
  cases h with
  | collection h | file h hf hact hparent => exact ⟨_, h⟩

theorem At.exists_file {y : String} (h : At t w mount r (.file ys y)) : ∃ i, r = .file i := by
  cases h with
  | @file f => exact ⟨f.id, rfl⟩

theorem At.eq_iff (hn : Named t w) (hforest : LiveForest w t.folders) (h : At t w mount r a)
    (h' : At t w mount r' b) : r = r' ↔ a = b := by
  cases h with
  | @collection node names h =>
    cases h' with
    | @collection node' names' h' =>
      constructor
      · intro heq
        obtain rfl := rootOf_inj heq
        rw [h.names_unique hforest h']
      · intro heq
        cases heq
        rw [h.unique hn h']
    | file h' hf hact hparent => exact ⟨fun heq => absurd heq rootOf_ne_file, fun heq => by cases heq⟩
  | @file f parent names h hf hact hparent =>
    cases h' with
    | collection h' => exact ⟨fun heq => absurd heq.symm rootOf_ne_file, fun heq => by cases heq⟩
    | @file g parent' names' h' hg hact' hparent' =>
      constructor
      · intro heq
        obtain rfl := Table.eq_of_key hf hg (LockRoot.file.inj heq)
        obtain rfl := hparent.symm.trans hparent'
        rw [h.names_unique hforest h']
      · intro heq
        obtain ⟨rfl, hname⟩ := Place.file.inj heq
        have hsame := (hparent.trans (h.unique hn h')).trans hparent'.symm
        rw [hn.files f hf g hg hact hact' hsame hname]

theorem over_file_iff {f : File} {parent : Option ℕ} (hf : f ∈ t.files.rows) (hparent : f.folderId = parent) :
    Over t (rootOf node) (.file f.id) ↔ node = none ∨ node = parent ∨ Over t (rootOf node) (rootOf parent) := by
  have hget := Table.get_of_mem hf
  cases node with
  | none => exact ⟨fun _ => .inl rfl, fun _ => trivial⟩
  | some k =>
    constructor
    · rintro ⟨x, p, hx, hp, hkp⟩
      obtain rfl : f = x := some.inj (hget.symm.trans hx)
      obtain rfl : parent = some p := hparent.symm.trans hp
      rcases Forest.atOrAbove_iff.mp hkp with rfl | habove
      · exact .inr (.inl rfl)
      · exact .inr (.inr habove)
    · rintro (hnone | rfl | hover)
      · cases hnone
      · exact ⟨f, k, hget, hparent, .refl⟩
      · cases parent with
        | none => exact hover.elim
        | some p => exact ⟨f, p, hget, hparent, .of_above hover⟩

theorem At.over_iff (hn : Named t w) (hforest : LiveForest w t.folders) (h : At t w mount r a)
    (h' : At t w mount r' b) : Over t r r' ↔ a.Over b := by
  cases h with
  | @file f parent names h hf hact hparent => cases r' <;> exact Iff.rfl
  | @collection node names h =>
    cases h' with
    | collection h' => exact h.over_iff hn hforest h'
    | @file f parent names' h' hf hact hparent =>
      rw [over_file_iff hf hparent, h.over_iff hn hforest h']
      show _ ↔ names <+: names'
      constructor
      · rintro (rfl | rfl | hover)
        · -- the workspace root is at no place but the first
          have hnil : names = [] := by
            cases h with
            | mount => rfl
          rw [hnil]
          exact nil_prefix
        · exact h.names_unique hforest h' ▸ prefix_refl _
        · exact hover.1
      · intro hbegins
        by_cases hsame : names = names'
        · obtain rfl := hsame
          exact .inr (.inl (h.unique hn h'))
        · exact .inr (.inr ⟨hbegins, hsame⟩)

end

end AsterDrive.Webdav
