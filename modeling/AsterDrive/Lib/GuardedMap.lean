import AsterDrive.Lib.Lts
import Mathlib.Data.List.Nodup
import Mathlib.Logic.Function.Basic

/-!
# GuardedMap — a map whose entries leave it in two operations

Registrations enter the map under their key, and each has a guard. The drop of a guard first checks what is
there (and may take the registration out), and when the check says so a second operation removes the whole
entry, whatever is in it by then. `Slot` is what an entry does, `guarded` the interleavings of any number of
registrations and drops, and `Tidy` the invariant of the runs in which nothing is registered under a key
between a check and the removal it asked for (`Apart`).
-/

namespace AsterDrive.GuardedMap

open Function

open List Option Function

/-- A registration: its key, and what tells it from all others. -/
structure Registration (κ τ : Type*) where
  key : κ
  tag : τ
  deriving DecidableEq

/-- What one entry `ν` of the map does. `replaces`: a registration takes the place of what is there. -/
structure Slot (τ ν : Type*) where
  register : Option ν → τ → ν
  /-- what the check of a drop leaves, and whether the entry is to be removed -/
  check : ν → τ → ν × Bool
  members : ν → List τ
  replaces : Bool

structure Slot.Lawful {τ ν : Type*} (L : Slot τ ν) : Prop where
  mem_register : ∀ {e t u}, u ∈ L.members (L.register e t) ↔
    u = t ∨ (L.replaces = false ∧ ∃ v, e = some v ∧ u ∈ L.members v)
  of_check : ∀ {v t u}, u ∈ L.members (L.check v t).1 → u ∈ L.members v
  check_other : ∀ {v t u}, u ∈ L.members v → u ≠ t → u ∈ L.members (L.check v t).1
  of_remove : ∀ {v t u}, (L.check v t).2 = true → u ∈ L.members (L.check v t).1 → u = t
  of_stay : ∀ {v t}, (L.check v t).2 = false → t ∉ L.members (L.check v t).1
  ne_nil_of_stay : ∀ {v t}, (L.check v t).2 = false → L.members (L.check v t).1 ≠ []

/-- The guard of a registration. -/
inductive Phase
  | held
  /-- its drop has asked for the removal of the entry -/
  | removing
  | dropped
  deriving DecidableEq

/-- `history`: every registration, the last one first. -/
structure State (κ τ ν : Type*) where
  entries : κ → Option ν
  history : List (Registration κ τ)
  phase : τ → Phase

inductive Act (κ τ : Type*)
  | register (r : Registration κ τ)
  | check (r : Registration κ τ)
  | remove (r : Registration κ τ)

variable {κ τ ν : Type*} [DecidableEq κ] [DecidableEq τ]

def State.empty : State κ τ ν := ⟨fun _ => none, [], fun _ => .held⟩

variable (L : Slot τ ν) {s s' : State κ τ ν}

def State.setRegister (s : State κ τ ν) (r : Registration κ τ) : State κ τ ν :=
  { entries := update s.entries r.key (some (L.register (s.entries r.key) r.tag))
    history := r :: s.history
    phase := update s.phase r.tag .held }

def State.setCheck (s : State κ τ ν) (r : Registration κ τ) : State κ τ ν :=
  match s.entries r.key with
  | none => { s with phase := update s.phase r.tag .dropped }
  | some v =>
    { s with
      entries := update s.entries r.key (some (L.check v r.tag).1)
      phase := update s.phase r.tag (if (L.check v r.tag).2 then .removing else .dropped) }

def State.setRemove (s : State κ τ ν) (r : Registration κ τ) : State κ τ ν :=
  { s with
    entries := update s.entries r.key none
    phase := update s.phase r.tag .dropped }

/-- One operation on the map. No two registrations have one tag. -/
def step (s : State κ τ ν) : Act κ τ → Option (State κ τ ν)
  | .register r => if ∀ r' ∈ s.history, r'.tag ≠ r.tag then some (s.setRegister L r) else none
  | .check r => if r ∈ s.history ∧ s.phase r.tag = .held then some (s.setCheck L r) else none
  | .remove r => if r ∈ s.history ∧ s.phase r.tag = .removing then some (s.setRemove r) else none

def guarded : Lts (State κ τ ν) (Act κ τ) where
  step := step L

/-- Nothing is registered under a key while the entry of that key is about to be removed. -/
def Apart (s : State κ τ ν) : Act κ τ → Prop
  | .register r => ∀ r' ∈ s.history, r'.key = r.key → s.phase r'.tag ≠ .removing
  | .check _ => True
  | .remove _ => True

instance (s : State κ τ ν) : DecidablePred (Apart s)
  | .register r => inferInstanceAs (Decidable (∀ r' ∈ s.history, r'.key = r.key → s.phase r'.tag ≠ .removing))
  | .check _ => .isTrue trivial
  | .remove _ => .isTrue trivial

/-- The registration is in the map. -/
def State.Registered (s : State κ τ ν) (r : Registration κ τ) : Prop :=
  ∃ v, s.entries r.key = some v ∧ r.tag ∈ L.members v

/-- The registration is there, its guard has not been dropped, and no later registration has replaced it. -/
def State.Current (s : State κ τ ν) (r : Registration κ τ) : Prop :=
  s.phase r.tag = .held ∧
    ∃ newer older, s.history = newer ++ r :: older ∧ (L.replaces = true → ∀ r' ∈ newer, r'.key ≠ r.key)

/-- Every guard of the key has been dropped. -/
def State.AllDropped (s : State κ τ ν) (k : κ) : Prop := ∀ r ∈ s.history, r.key = k → s.phase r.tag = .dropped

/-! ### The invariant -/

structure Tidy (s : State κ τ ν) : Prop where
  distinct : (s.history.map (·.tag)).Nodup
  /-- what is in the map was registered there, and its drop is not over -/
  registered : ∀ {k v t}, s.entries k = some v → t ∈ L.members v → ⟨k, t⟩ ∈ s.history ∧ s.phase t ≠ .dropped
  /-- an entry about to be removed has nothing but what it is removed for -/
  spare : ∀ {k v t u}, ⟨k, t⟩ ∈ s.history → s.phase t = .removing → s.entries k = some v → u ∈ L.members v → u = t
  /-- somebody removes an entry with nothing in it -/
  removed : ∀ {k v}, s.entries k = some v → L.members v = [] → ∃ t, ⟨k, t⟩ ∈ s.history ∧ s.phase t = .removing
  current : ∀ {r}, s.Current L r → s.Registered L r

omit [DecidableEq κ] [DecidableEq τ] in
theorem tidy_empty : Tidy L (State.empty : State κ τ ν) where
  distinct := nodup_nil
  registered h := by simp [State.empty] at h
  spare h := by simp [State.empty] at h
  removed h := by simp [State.empty] at h
  current := by
    rintro r ⟨-, newer, older, hsplit, -⟩
    simp [State.empty] at hsplit

section Steps

variable {L}

omit [DecidableEq κ] [DecidableEq τ] in
theorem Tidy.tag_inj (hs : Tidy L s) {r r' : Registration κ τ} (hr : r ∈ s.history) (hr' : r' ∈ s.history)
    (htag : r.tag = r'.tag) : r = r' :=
  inj_on_of_nodup_map hs.distinct hr hr' htag

variable (hl : L.Lawful) {r : Registration κ τ}
include hl

theorem Tidy.setRegister (hs : Tidy L s) (hfresh : ∀ r' ∈ s.history, r'.tag ≠ r.tag)
    (hapart : ∀ r' ∈ s.history, r'.key = r.key → s.phase r'.tag ≠ .removing) : Tidy L (s.setRegister L r) := by
  have hold : ∀ {k t}, ⟨k, t⟩ ∈ s.history → update s.phase r.tag .held t = s.phase t :=
    fun hmem => update_of_ne (hfresh _ hmem) _ _
  have hnew : ∀ {k t}, (⟨k, t⟩ : Registration κ τ) ∈ r :: s.history →
      update s.phase r.tag .held t = .removing → ⟨k, t⟩ ∈ s.history ∧ s.phase t = .removing := by
    intro k t hmem hphase
    rcases mem_cons.mp hmem with rfl | hmem
    · simp at hphase
    · exact ⟨hmem, (hold hmem).symm.trans hphase⟩
  constructor
  case distinct =>
    show (r.tag :: s.history.map (·.tag)).Nodup
    refine nodup_cons.mpr ⟨fun hmem => ?_, hs.distinct⟩
    obtain ⟨r', hr', htag⟩ := List.mem_map.mp hmem
    exact hfresh r' hr' htag
  case registered =>
    intro k v t hentry hmem
    show ⟨k, t⟩ ∈ r :: s.history ∧ update s.phase r.tag .held t ≠ .dropped
    have hprevious : ∀ {v}, s.entries k = some v → t ∈ L.members v →
        ⟨k, t⟩ ∈ r :: s.history ∧ update s.phase r.tag .held t ≠ .dropped := by
      intro v hv ht
      obtain ⟨hin, hphase⟩ := hs.registered hv ht
      exact ⟨mem_cons_of_mem _ hin, (hold hin).symm ▸ hphase⟩
    change update s.entries r.key _ k = some v at hentry
    by_cases hkey : k = r.key
    · subst hkey
      rw [update_self, some.injEq] at hentry
      subst hentry
      rcases hl.mem_register.mp hmem with rfl | ⟨-, v', hv', hmem'⟩
      · exact ⟨mem_cons_self, by simp⟩
      · exact hprevious hv' hmem'
    · rw [update_of_ne hkey] at hentry
      exact hprevious hentry hmem
  case spare =>
    intro k v t u hmem hphase hentry hu
    obtain ⟨hin, hphase⟩ := hnew hmem hphase
    change update s.entries r.key _ k = some v at hentry
    have hkey : k ≠ r.key := fun hkey => hapart _ hin hkey hphase
    rw [update_of_ne hkey] at hentry
    exact hs.spare hin hphase hentry hu
  case removed =>
    intro k v hentry hnil
    change update s.entries r.key _ k = some v at hentry
    by_cases hkey : k = r.key
    · subst hkey
      rw [update_self, some.injEq] at hentry
      have hself : r.tag ∈ L.members v := hentry ▸ hl.mem_register.mpr (.inl rfl)
      simp [hnil] at hself
    · rw [update_of_ne hkey] at hentry
      obtain ⟨t, hin, hphase⟩ := hs.removed hentry hnil
      exact ⟨t, mem_cons_of_mem _ hin, (hold hin).trans hphase⟩
  case current =>
    rintro c ⟨hphase, newer, older, hsplit, hlast⟩
    cases newer with
    | nil =>
      -- the registration itself
      cases hsplit
      exact ⟨_, update_self .., hl.mem_register.mpr (.inl rfl)⟩
    | cons _ newer =>
      obtain ⟨rfl, hbefore⟩ := List.cons.inj hsplit
      have hin : c ∈ s.history := by simp [hbefore]
      obtain ⟨v, hv, hmem⟩ := hs.current ⟨(hold hin).symm.trans hphase, newer, older, hbefore,
          fun h r' hr' => hlast h r' (mem_cons_of_mem _ hr')⟩
      by_cases hkey : c.key = r.key
      · refine ⟨_, by rw [hkey]; exact update_self .., hl.mem_register.mpr (.inr ⟨?_, v, hkey ▸ hv, hmem⟩)⟩
        by_contra hreplaces
        exact hlast (by simpa using hreplaces) r mem_cons_self hkey.symm
      · exact ⟨v, (update_of_ne hkey _ _).trans hv, hmem⟩

omit hl

omit [DecidableEq κ] in
/-- Who is current after the guard of `r` is no longer held was current before, and is another. -/
theorem current_of_leave {phase : Phase} (hphase : phase ≠ .held) {c : Registration κ τ} {entries : κ → Option ν}
    (hc : State.Current L ⟨entries, s.history, update s.phase r.tag phase⟩ c) :
    s.Current L c ∧ c.tag ≠ r.tag := by
  obtain ⟨hheld, hrest⟩ := hc
  change update s.phase r.tag phase c.tag = .held at hheld
  have htag : c.tag ≠ r.tag := by
    intro htag
    rw [htag, update_self] at hheld
    exact hphase hheld
  rw [update_of_ne htag] at hheld
  exact ⟨⟨hheld, hrest⟩, htag⟩

omit [DecidableEq κ] in
theorem Tidy.dropAbsent (hs : Tidy L s) (hr : r ∈ s.history) (hheld : s.phase r.tag = .held)
    (habsent : s.entries r.key = none) :
    Tidy L { s with phase := update s.phase r.tag .dropped } := by
  have hremoving : ∀ {t}, update s.phase r.tag .dropped t = .removing ↔ s.phase t = .removing := by
    intro t
    by_cases htag : t = r.tag
    · simp [htag, hheld]
    · rw [update_of_ne htag]
  constructor
  case distinct => exact hs.distinct
  case registered =>
    intro k v t hentry hmem
    obtain ⟨hin, hphase⟩ := hs.registered hentry hmem
    have htag : t ≠ r.tag := by
      rintro rfl
      have hsame : r = ⟨k, r.tag⟩ := hs.tag_inj hr hin rfl
      rw [hsame] at habsent
      simp [show s.entries k = none from habsent] at hentry
    exact ⟨hin, fun hgone => hphase ((update_of_ne htag _ _).symm.trans hgone)⟩
  case spare => exact fun hin hphase => hs.spare hin (hremoving.mp hphase)
  case removed =>
    intro k v hentry hnil
    obtain ⟨t, hin, hphase⟩ := hs.removed hentry hnil
    exact ⟨t, hin, hremoving.mpr hphase⟩
  case current => exact fun hc => hs.current (current_of_leave (by simp) hc).1

include hl in
theorem Tidy.check (hs : Tidy L s) (hr : r ∈ s.history) (hheld : s.phase r.tag = .held) {v : ν}
    (hv : s.entries r.key = some v) :
    Tidy L { s with
      entries := update s.entries r.key (some (L.check v r.tag).1)
      phase := update s.phase r.tag (if (L.check v r.tag).2 then .removing else .dropped) } := by
  -- an entry has what it had, and no others than before are in it
  have hbefore : ∀ {k v'}, update s.entries r.key (some (L.check v r.tag).1) k = some v' →
      ∃ v0, s.entries k = some v0 ∧ ∀ u ∈ L.members v', u ∈ L.members v0 := by
    intro k v' hentry
    by_cases hkey : k = r.key
    · subst hkey
      rw [update_self, some.injEq] at hentry
      exact ⟨v, hv, fun u hu => hl.of_check (hentry ▸ hu)⟩
    · rw [update_of_ne hkey] at hentry
      exact ⟨v', hentry, fun u hu => hu⟩
  constructor
  case distinct => exact hs.distinct
  case registered =>
    intro k v' t hentry hmem
    change update s.entries r.key _ k = some v' at hentry
    obtain ⟨v0, hentry0, hsub⟩ := hbefore hentry
    obtain ⟨hin, hphase⟩ := hs.registered hentry0 (hsub t hmem)
    refine ⟨hin, ?_⟩
    by_cases htag : t = r.tag
    · -- it is still there after its own check: the entry is to be removed
      subst htag
      have hsame : r = ⟨k, r.tag⟩ := hs.tag_inj hr hin rfl
      have hkey : r.key = k := congrArg Registration.key hsame
      have hremove : (L.check v r.tag).2 = true := by
        by_contra hstay
        refine hl.of_stay ((Bool.not_eq_true _).mp hstay) ?_
        subst hkey
        rw [update_self, some.injEq] at hentry
        rw [hentry]
        exact hmem
      simp [hremove]
    · exact fun hgone => hphase ((update_of_ne htag _ _).symm.trans hgone)
  case spare =>
    intro k v' t u hin hphase hentry hu
    change update s.entries r.key _ k = some v' at hentry
    change update s.phase r.tag _ t = .removing at hphase
    by_cases htag : t = r.tag
    · subst htag
      have hkey : r.key = k := congrArg Registration.key (hs.tag_inj hr hin rfl)
      subst hkey
      rw [update_self, some.injEq] at hentry
      have hremove : (L.check v r.tag).2 = true := by
        by_contra hstay
        simp [hstay] at hphase
      exact hl.of_remove hremove (hentry ▸ hu)
    · obtain ⟨v0, hentry0, hsub⟩ := hbefore hentry
      rw [update_of_ne htag] at hphase
      exact hs.spare hin hphase hentry0 (hsub u hu)
  case removed =>
    intro k v' hentry hnil
    change update s.entries r.key _ k = some v' at hentry
    by_cases hkey : k = r.key
    · subst hkey
      rw [update_self, some.injEq] at hentry
      have hremove : (L.check v r.tag).2 = true := by
        by_contra hstay
        exact hl.ne_nil_of_stay ((Bool.not_eq_true _).mp hstay) (hentry ▸ hnil)
      exact ⟨r.tag, hr, by simp [hremove]⟩
    · rw [update_of_ne hkey] at hentry
      obtain ⟨t, hin, hphase⟩ := hs.removed hentry hnil
      refine ⟨t, hin, (update_of_ne ?_ _ _).trans hphase⟩
      rintro rfl
      simp [hheld] at hphase
  case current =>
    intro c hc
    have hphase : (if (L.check v r.tag).2 then Phase.removing else .dropped) ≠ .held := by split <;> simp
    obtain ⟨hcurrent, htag⟩ := current_of_leave hphase hc
    obtain ⟨v0, hentry, hmem⟩ := hs.current hcurrent
    by_cases hkey : c.key = r.key
    · rw [hkey, hv, some.injEq] at hentry
      subst hentry
      exact ⟨_, by rw [hkey]; exact update_self .., hl.check_other hmem htag⟩
    · exact ⟨v0, (update_of_ne hkey _ _).trans hentry, hmem⟩

theorem Tidy.setRemove (hs : Tidy L s) (hr : r ∈ s.history) (hremoving : s.phase r.tag = .removing) :
    Tidy L (s.setRemove r) := by
  have hother : ∀ {k v}, update s.entries r.key none k = some v → k ≠ r.key ∧ s.entries k = some v := by
    intro k v hentry
    by_cases hkey : k = r.key
    · simp [hkey] at hentry
    · exact ⟨hkey, (update_of_ne hkey _ _).symm.trans hentry⟩
  have htag_of : ∀ {k t}, ⟨k, t⟩ ∈ s.history → k ≠ r.key → t ≠ r.tag := by
    rintro k t hin hkey rfl
    exact hkey (congrArg Registration.key (hs.tag_inj hin hr rfl))
  constructor
  case distinct => exact hs.distinct
  case registered =>
    intro k v t hentry hmem
    obtain ⟨hkey, hentry⟩ := hother hentry
    obtain ⟨hin, hphase⟩ := hs.registered hentry hmem
    exact ⟨hin, fun hgone => hphase ((update_of_ne (htag_of hin hkey) _ _).symm.trans hgone)⟩
  case spare =>
    intro k v t u hin hphase hentry hu
    obtain ⟨hkey, hentry⟩ := hother hentry
    exact hs.spare hin ((update_of_ne (htag_of hin hkey) _ _).symm.trans hphase) hentry hu
  case removed =>
    intro k v hentry hnil
    obtain ⟨hkey, hentry⟩ := hother hentry
    obtain ⟨t, hin, hphase⟩ := hs.removed hentry hnil
    exact ⟨t, hin, (update_of_ne (htag_of hin hkey) _ _).trans hphase⟩
  case current =>
    intro c hc
    obtain ⟨hcurrent, htag⟩ := current_of_leave (by simp) hc
    obtain ⟨v, hentry, hmem⟩ := hs.current hcurrent
    -- whoever is current is not in the entry that goes
    have hkey : c.key ≠ r.key := fun hkey => htag (hs.spare hr hremoving (hkey ▸ hentry) hmem)
    exact ⟨v, (update_of_ne hkey _ _).trans hentry, hmem⟩

include hl in
theorem tidy_step {a : Act κ τ} (hs : Tidy L s) (hapart : Apart s a) (hstep : step L s a = some s') : Tidy L s' := by
  cases a with
  | register r =>
    by_cases hfresh : ∀ r' ∈ s.history, r'.tag ≠ r.tag
    · rw [step, if_pos hfresh, some.injEq] at hstep
      exact hstep ▸ hs.setRegister hl hfresh hapart
    · rw [step, if_neg hfresh] at hstep
      cases hstep
  | check r =>
    by_cases hr : r ∈ s.history ∧ s.phase r.tag = .held
    · rw [step, if_pos hr, some.injEq] at hstep
      subst hstep
      cases hv : s.entries r.key with
      | none => simpa only [State.setCheck, hv] using hs.dropAbsent hr.1 hr.2 hv
      | some v => simpa only [State.setCheck, hv] using hs.check hl hr.1 hr.2 hv
    · rw [step, if_neg hr] at hstep
      cases hstep
  | remove r =>
    by_cases hr : r ∈ s.history ∧ s.phase r.tag = .removing
    · rw [step, if_pos hr, some.injEq] at hstep
      exact hstep ▸ hs.setRemove hr.1 hr.2
    · rw [step, if_neg hr] at hstep
      cases hstep

include hl in
theorem tidy_of_reach (h : Lts.Reach (guarded L) Apart .empty s) : Tidy L s :=
  h.induct (tidy_empty L) fun hs hg hstep => tidy_step hl hs hg hstep

end Steps

omit [DecidableEq κ] [DecidableEq τ] in
theorem Tidy.absent (hs : Tidy L s) {k : κ} (hk : s.AllDropped k) : s.entries k = none := by
  by_contra hentry
  obtain ⟨v, hv⟩ := ne_none_iff_exists'.mp hentry
  cases hmembers : L.members v with
  | nil =>
    obtain ⟨t, hin, hphase⟩ := hs.removed hv hmembers
    have hdropped : s.phase t = .dropped := hk _ hin rfl
    rw [hphase] at hdropped
    cases hdropped
  | cons t rest =>
    obtain ⟨hin, hphase⟩ := hs.registered hv (t := t) (by simp [hmembers])
    exact hphase (hk _ hin rfl)

end AsterDrive.GuardedMap
