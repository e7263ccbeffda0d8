import AsterDrive.Lib.Census
import AsterDrive.Placement.PolicySnapshot

/-!
# Placement.SnapshotConvergence — the snapshot follows the database

Whoever publishes makes the loads that began earlier void, so a load that is not void has read what nobody has published
yet: for a user the database, or a group that is going to be published (`Covers`); for the tables of placement the
database, or a change after whose commit another load has begun (`Call.Current`).
-/

namespace AsterDrive.Placement

open PolicySnapshotData

open Nat

open List Option Function

variable {connectors : Connectors} {w w' w₀ : World} {i j id groupId : ℕ} {call call' c : Call}

/-! ### What a statement does -/

/-- The effect of the next statement of call `i`. -/
inductive Effect (connectors : Connectors) (w : World) (i : ℕ) (call : Call) : World → Prop
  | moves (call' : Call) (hphase : call.phase.isOpen) (hphase' : call'.phase.isOpen ∨ call'.phase.isOver) :
      Effect connectors w i call (w.setCall i call')
  | updates (id groupId : ℕ) (hrequest : call.request = .update id (some groupId)) (hphase : call.phase = .checked) :
      Effect connectors w i call
        { w.setCall i { call with phase := if policyGroupChanged call groupId then .committed else .done } with
          db := { w.db with users := assignGroup w.db.users id groupId } }
  | deletes (id : ℕ) (hrequest : call.request = .forceDelete id) (hphase : call.phase = .purging) :
      Effect connectors w i call { w.setCall i { call with phase := .committed } with
          db := { w.db with users := w.db.users.deleteWhere fun user => user.id = id } }
  | publishes (id : ℕ) (group : Option ℕ) (hphase : call.phase = .committed)
      (hrequest : (call.request = .update id group ∧ group.isSome) ∨
        (call.request = .forceDelete id ∧ group = none)) : Effect connectors w i call (publish w i call id group)
  | changes (routing : Routing) (hrequest : call.request = .change routing) (hphase : call.phase = .ready) :
      Effect connectors w i call (commitChange w i call routing)
  | begins (hphase : call.phase = .reload) : Effect connectors w i call (readGeneration w i call)
  | reads (reads : Reads) (hphase : call.phase = .loading) (hreads : call.reads.next w.db = some reads) :
      Effect connectors w i call (w.setCall i { call with reads := reads })
  | fails (tables : Tables) (e : AsterError) (hphase : call.phase = .loading) (htables : call.reads.tables = some tables)
      (hload : load connectors tables = .error e) : Effect connectors w i call (w.setCall i { call with phase := .failed e })
  | retries (hphase : call.phase = .loading) : Effect connectors w i call (w.setCall i { call with phase := .reload })
  | replaces (tables : Tables) (next : PolicySnapshotData) (routing : Routing) (hrequest : call.request = .change routing)
      (hphase : call.phase = .loading) (htables : call.reads.tables = some tables)
      (hload : load connectors tables = .ok next) (hgeneration : w.snapshot.generation = call.generation) :
      Effect connectors w i call { w.setCall i { call with phase := .done } with
          snapshot := { next with generation := nextGeneration call.generation }
          published := w.published + 1 }

theorem Effect.ends {phase : Phase} (hphase : call.phase.isOpen) (hphase' : phase.isOver) :
    Effect connectors w i call (w.setCall i { call with phase := phase }) := .moves _ hphase (.inr hphase')

theorem Effect.goes {phase : Phase} (hphase : call.phase.isOpen) (hphase' : phase.isOpen) :
    Effect connectors w i call (w.setCall i { call with phase := phase }) := .moves _ hphase (.inl hphase')

theorem nextOfChange_effect {routing : Routing} (hrequest : call.request = .change routing)
    (h : nextOfChange connectors w i call routing = some w') : Effect connectors w i call w' := by
  unfold nextOfChange at h
  split at h
  · rename_i hphase
    cases h
    exact .changes routing hrequest hphase
  · rename_i hphase
    cases h
    exact .begins hphase
  · rename_i hphase
    unfold loadStep at h
    split at h
    · rename_i reads hreads
      cases h
      exact .reads reads hphase hreads
    · obtain ⟨tables, htables, rfl⟩ := map_eq_some_iff.mp h
      split
      · rename_i e hload
        exact .fails tables e hphase htables hload
      · rename_i next hload
        split
        · exact .retries hphase
        · rename_i snapshot hreplace
          unfold replaceIfCurrent at hreplace
          split_ifs at hreplace with hgeneration
          cases hreplace
          exact .replaces tables next routing hrequest hphase htables hload (by simpa using hgeneration)
  · cases h

theorem commitUpdate_effect (hrequest : call.request = .update id (some groupId)) (hphase : call.phase = .checked) :
    Effect connectors w i call (commitUpdate w i call id (some groupId)) := by
  have hopen : call.phase.isOpen := by rw [hphase]; rfl
  unfold commitUpdate
  split
  · exact .ends hopen rfl
  · rename_i heq
    cases heq
  · rename_i heq
    cases heq
    exact .updates id groupId hrequest hphase

theorem nextOfUpdate_effect {group : Option ℕ} (hrequest : call.request = .update id group)
    (h : nextOfUpdate w i call id group = some w') : Effect connectors w i call w' := by
  unfold nextOfUpdate at h
  split at h
  · rename_i hphase
    have hopen : call.phase.isOpen := by rw [hphase]; rfl
    cases h
    unfold loadExisting
    split
    · exact .ends hopen rfl
    · exact .moves _ hopen (.inl rfl)
  · rename_i hphase
    have hopen : call.phase.isOpen := by rw [hphase]; rfl
    cases h
    unfold findGroup
    split
    · exact .ends hopen rfl
    · split_ifs
      · exact .ends hopen rfl
      · exact .goes hopen rfl
  · rename_i hphase
    have hopen : call.phase.isOpen := by rw [hphase]; rfl
    cases h
    unfold commitUpdate
    split
    · exact .ends hopen rfl
    · exact .ends hopen rfl
    · rename_i heq
      cases heq
  · rename_i hphase
    have hopen : call.phase.isOpen := by rw [hphase]; rfl
    cases h
    unfold checkTarget
    split_ifs
    · exact .ends hopen rfl
    · exact .goes hopen rfl
  · rename_i groupId hphase
    cases h
    exact commitUpdate_effect hrequest hphase
  · rename_i groupId hphase
    cases h
    exact .publishes id (some groupId) hphase (.inl ⟨hrequest, rfl⟩)
  · cases h

theorem nextOfDelete_effect (hrequest : call.request = .forceDelete id) (h : nextOfDelete w i call id = some w') :
    Effect connectors w i call w' := by
  unfold nextOfDelete at h
  split at h
  · rename_i hphase
    have hopen : call.phase.isOpen := by rw [hphase]; rfl
    cases h
    unfold beginDelete
    split
    · exact .ends hopen rfl
    · split_ifs
      · exact .ends hopen rfl
      · exact .ends hopen rfl
      · exact .goes hopen rfl
  · rename_i hphase
    have hopen : call.phase.isOpen := by rw [hphase]; rfl
    cases h
    unfold commitDelete
    split
    · exact .ends hopen rfl
    · exact .deletes id hrequest hphase
  · rename_i hphase
    cases h
    exact .publishes id none hphase (.inr ⟨hrequest, rfl⟩)
  · cases h

/-- **Inversion.** -/
theorem next_effect (h : next connectors w i call = some w') : Effect connectors w i call w' := by
  unfold next at h
  split at h
  · rename_i hrequest
    exact nextOfChange_effect hrequest h
  · rename_i hrequest
    exact nextOfUpdate_effect hrequest h
  · rename_i hrequest
    exact nextOfDelete_effect hrequest h

/-- A new call, the next statement of a call, or the end of a call that has committed nothing. -/
theorem step_effect {l : Label} (h : step connectors w l = some w') :
    (∃ request, l = .start request ∧ w' = { w with calls := w.calls ++ [{ request := request }] }) ∨
      (∃ i call, l = .next i ∧ w.calls[i]? = some call ∧ Effect connectors w i call w') ∨
      ∃ i call e, w.calls[i]? = some call ∧ call.phase.isOpen ∧ w' = w.setCall i { call with phase := .failed e } := by
  cases l with
  | start request => exact .inl ⟨request, rfl, (some.inj h).symm⟩
  | next i =>
    obtain ⟨call, hget, hnext⟩ := bind_eq_some_iff.mp h
    exact .inr (.inl ⟨i, call, rfl, hget, next_effect hnext⟩)
  | abort i =>
    simp only [step] at h
    split at h
    · cases h
    · rename_i call hget
      split_ifs at h with hopen
      cases h
      exact .inr (.inr ⟨i, call, _, hget, hopen, rfl⟩)

/-! ### Calls -/

theorem get_append {request : Request} (h : (w.calls ++ [({ request := request } : Call)])[j]? = some c) :
    w.calls[j]? = some c ∨ c = { request := request } := Census.of_append h

/-! ### Reads and compilation -/

theorem get_assignGroup (users : Table User.id) (k : ℕ) : (assignGroup users id groupId).get k =
    (users.get k).map fun user => if user.id = id then { user with policyGroupId := some groupId } else user := by
  unfold assignGroup
  rw [Table.get_updateWhere]
  simp

theorem mem_assignGroup {users : Table User.id} {user : User} (h : user ∈ (assignGroup users id groupId).rows) :
    (user ∈ users.rows ∧ user.id ≠ id) ∨
      ∃ row ∈ users.rows, row.id = id ∧ user = { row with policyGroupId := some groupId } := by
  obtain ⟨row, hrow, rfl⟩ := Table.mem_updateWhere.mp h
  by_cases hid : row.id = id
  · rw [if_pos (by simpa using hid)]
    exact .inr ⟨row, hrow, hid, rfl⟩
  · rw [if_neg (by simpa using hid)]
    exact .inl ⟨hrow, hid⟩

/-- What is read of the tables of placement is what they hold. -/
structure Reads.Fresh (reads : Reads) (routing : Routing) : Prop where
  policies : ∀ t, reads.policies = some t → t = routing.policies
  policyGroups : ∀ t, reads.policyGroups = some t → t = routing.policyGroups
  placementRules : ∀ t, reads.placementRules = some t → t = routing.placementRules
  placementTargets : ∀ t, reads.placementTargets = some t → t = routing.placementTargets
  managedFollowers : ∀ t, reads.managedFollowers = some t → t = routing.managedFollowers

theorem Reads.fresh_empty (routing : Routing) : ({} : Reads).Fresh routing :=
  ⟨(fun _ h => nomatch h), (fun _ h => nomatch h), (fun _ h => nomatch h), (fun _ h => nomatch h), (fun _ h => nomatch h)⟩

theorem reads_next {reads reads' : Reads} {db : Tables} (h : reads.next db = some reads') :
    (reads'.policies = reads.policies ∨ reads'.policies = some db.policies) ∧
      (reads'.policyGroups = reads.policyGroups ∨ reads'.policyGroups = some db.policyGroups) ∧
      (reads'.placementRules = reads.placementRules ∨ reads'.placementRules = some db.placementRules) ∧
      (reads'.placementTargets = reads.placementTargets ∨ reads'.placementTargets = some db.placementTargets) ∧
      (reads'.managedFollowers = reads.managedFollowers ∨ reads'.managedFollowers = some db.managedFollowers) ∧
      (reads'.users = reads.users ∨ reads'.users = some db.users) := by
  unfold Reads.next at h
  split_ifs at h <;> obtain rfl := some.inj h <;> simp

theorem Reads.Fresh.next {reads reads' : Reads} {db : Tables} (hfresh : reads.Fresh db.toRouting)
    (h : reads.next db = some reads') : reads'.Fresh db.toRouting := by
  obtain ⟨hpolicies, hgroups, hrules, htargets, hfollowers, -⟩ := reads_next h
  have hkeep : ∀ {α : Type} {old new : Option α} {now : α}, new = old ∨ new = some now →
      (∀ t, old = some t → t = now) → ∀ t, new = some t → t = now := by
    rintro α old new now (rfl | rfl) hold t ht
    · exact hold t ht
    · exact (some.inj ht).symm
  exact ⟨hkeep hpolicies hfresh.policies, hkeep hgroups hfresh.policyGroups, hkeep hrules hfresh.placementRules,
    hkeep htargets hfresh.placementTargets, hkeep hfollowers hfresh.managedFollowers⟩

theorem reads_tables {reads : Reads} {tables : Tables} (h : reads.tables = some tables) :
    reads.policies = some tables.policies ∧ reads.policyGroups = some tables.policyGroups ∧
      reads.placementRules = some tables.placementRules ∧ reads.placementTargets = some tables.placementTargets ∧
      reads.managedFollowers = some tables.managedFollowers ∧ reads.users = some tables.users := by
  unfold Reads.tables at h
  split at h
  · cases h
    simp [*]
  · cases h

theorem Reads.Fresh.tables {reads : Reads} {routing : Routing} {tables : Tables} (hfresh : reads.Fresh routing)
    (h : reads.tables = some tables) : tables.toRouting = routing := by
  obtain ⟨hpolicies, hgroups, hrules, htargets, hfollowers, -⟩ := reads_tables h
  obtain ⟨⟨policies, groups, rules, targets, followers⟩, users, teams⟩ := tables
  obtain ⟨policies', groups', rules', targets', followers'⟩ := routing
  obtain rfl := hfresh.policies _ hpolicies
  obtain rfl := hfresh.policyGroups _ hgroups
  obtain rfl := hfresh.placementRules _ hrules
  obtain rfl := hfresh.placementTargets _ htargets
  obtain rfl := hfresh.managedFollowers _ hfollowers
  rfl

theorem load_users {tables : Tables} {data : PolicySnapshotData} (h : load connectors tables = .ok data) :
    data.userPolicyGroupByUserId = fun id => (tables.users.get id).bind User.policyGroupId := by
  unfold load at h
  dsimp only at h
  split at h
  · cases h
  · cases h
    rfl

theorem load_routing {tables tables' : Tables} {data data' : PolicySnapshotData}
    (hsame : tables.toRouting = tables'.toRouting) (h : load connectors tables = .ok data)
    (h' : load connectors tables' = .ok data') :
    data.policiesById = data'.policiesById ∧ data.policyGroupsById = data'.policyGroupsById ∧
      data.placementProfilesById = data'.placementProfilesById := by
  unfold load at h h'
  dsimp only at h h'
  rw [hsame] at h
  split at h
  · cases h
  · rename_i bindings hbindings
    rw [hbindings] at h'
    cases h
    cases h'
    exact ⟨rfl, rfl, rfl⟩

theorem load_error {tables tables' : Tables} {e : AsterError} (hsame : tables.policies = tables'.policies)
    (h : load connectors tables = .error e) : load connectors tables' = .error e := by
  unfold load at h ⊢
  dsimp only at h ⊢
  rw [hsame] at h
  split at h
  · exact h
  · cases h

/-! ### Generations -/

/-- A load is void once somebody has published since it began. -/
structure World.Counted (w : World) : Prop where
  generation : w.snapshot.generation = w.published % 2 ^ 64
  started : ∀ (j : ℕ) (c : Call), w.calls[j]? = some c → c.phase = .loading →
    c.started ≤ w.published ∧ c.generation = c.started % 2 ^ 64
  gone : ∀ (j : ℕ) (c : Call) (id : ℕ), w.calls[j]? = some c → c.phase = .committed → c.request = .forceDelete id →
    w.db.users.get id = none

theorem World.Counted.publish (hw : w.Counted) {published : ℕ} (hpublished : published = w.published) :
    nextGeneration w.snapshot.generation = (published + 1) % 2 ^ 64 := by
  unfold nextGeneration
  rw [hw.generation, hpublished]
  omega

theorem World.Counted.change (hw : w.Counted) (hcalls : w'.calls = w.calls.set i call')
    (hgeneration : w'.snapshot.generation = w'.published % 2 ^ 64) (hpublished : w.published ≤ w'.published)
    (husers : ∀ id, w.db.users.get id = none → w'.db.users.get id = none)
    (hloading : call'.phase = .loading → call'.started ≤ w'.published ∧ call'.generation = call'.started % 2 ^ 64)
    (hgone : ∀ id, call'.phase = .committed → call'.request = .forceDelete id → w'.db.users.get id = none) :
    w'.Counted := by
  refine ⟨hgeneration, fun j c hj hphase => ?_, fun j c id hj hphase hrequest => ?_⟩
  · rw [hcalls] at hj
    rcases Census.of_set hj with ⟨-, rfl⟩ | ⟨-, hold⟩
    · exact hloading hphase
    · obtain ⟨hle, hmod⟩ := hw.started j c hold hphase
      exact ⟨le_trans hle hpublished, hmod⟩
  · rw [hcalls] at hj
    rcases Census.of_set hj with ⟨-, rfl⟩ | ⟨-, hold⟩
    · exact hgone id hphase hrequest
    · exact husers id (hw.gone j c id hold hphase hrequest)

theorem phase_of_open {phase : Phase} (h : phase.isOpen ∨ phase.isOver) :
    phase ≠ .loading ∧ phase ≠ .committed ∧ phase ≠ .reload := by
  cases phase <;> simp_all [Phase.isOpen, Phase.isOver]

theorem counted_effect (hw : w.Counted) (hget : w.calls[i]? = some call) (h : Effect connectors w i call w') :
    w'.Counted := by
  cases h with
  | moves call' hphase hphase' =>
    obtain ⟨hloading, hcommitted, -⟩ := phase_of_open hphase'
    exact hw.change rfl hw.generation (le_refl _) (fun _ hid => hid) (fun hp => absurd hp hloading)
      fun _ hp => absurd hp hcommitted
  | updates id groupId hrequest hphase =>
    refine hw.change rfl hw.generation (le_refl _) (fun k hk => ?_) (fun hp => ?_) fun k hp hdelete => ?_
    · show (assignGroup w.db.users id groupId).get k = none
      rw [get_assignGroup, hk]
      rfl
    · dsimp only at hp
      split_ifs at hp
    · rw [show call.request = .forceDelete k from hdelete] at hrequest
      cases hrequest
  | deletes id hrequest hphase =>
    refine hw.change rfl hw.generation (le_refl _) (fun k hk => ?_) (fun hp => nomatch hp) fun k hp hdelete => ?_
    · show (w.db.users.deleteWhere _).get k = none
      rw [Table.get_deleteWhere, hk]
      rfl
    · obtain rfl : id = k := Request.forceDelete.inj (hrequest.symm.trans hdelete)
      show (w.db.users.deleteWhere _).get id = none
      rw [Table.get_deleteWhere, filter_eq_none_iff]
      intro user huser
      simp [Table.key_of_get huser]
  | publishes id group hphase hrequest =>
    exact hw.change rfl (hw.publish rfl) (le_succ _) (fun _ hid => hid) (fun hp => nomatch hp) fun _ hp => nomatch hp
  | changes routing hrequest hphase | fails tables e hphase htables hload | retries hphase =>
    exact hw.change rfl hw.generation (le_refl _) (fun _ hid => hid) (fun hp => nomatch hp) fun _ hp => nomatch hp
  | begins hphase =>
    exact hw.change rfl hw.generation (le_refl _) (fun _ hid => hid) (fun _ => ⟨le_refl _, hw.generation⟩)
      fun _ hp => nomatch hp
  | reads reads hphase hreads =>
    exact hw.change rfl hw.generation (le_refl _) (fun _ hid => hid) (fun _ => hw.started i call hget hphase)
      fun _ hp => by rw [show call.phase = .committed from hp] at hphase; cases hphase
  | replaces tables next routing hrequest hphase htables hload hgeneration =>
    refine hw.change rfl ?_ (le_succ _) (fun _ hid => hid) (fun hp => nomatch hp) fun _ hp => nomatch hp
    rw [← hgeneration]
    exact hw.publish rfl

theorem counted_step {l : Label} (hw : w.Counted) (h : step connectors w l = some w') : w'.Counted := by
  rcases step_effect h with ⟨request, -, rfl⟩ | ⟨i, call, -, hget, heffect⟩ | ⟨i, call, e, hget, hopen, rfl⟩
  · refine ⟨hw.generation, fun j c hj hphase => ?_, fun j c id hj hphase hrequest => ?_⟩
    · rcases get_append hj with hold | rfl
      · exact hw.started j c hold hphase
      · cases hphase
    · rcases get_append hj with hold | rfl
      · exact hw.gone j c id hold hphase hrequest
      · cases hphase
  · exact counted_effect hw hget heffect
  · exact counted_effect hw hget (.ends hopen rfl : Effect connectors w i call _)

theorem counted_of_reach {G : World → Label → Prop} (h₀ : w₀.Fresh connectors)
    (h : (snapshots connectors).Reach G w₀ w) : w.Counted :=
  h.induct (I := World.Counted)
    ⟨h₀.published, fun j c hj => by simp [h₀.calls] at hj, fun j c id hj => by simp [h₀.calls] at hj⟩
    fun hw _ hstep => counted_step hw hstep

theorem World.Counted.void (hw : w.Counted) (hdone : call'.phase ≠ .loading) (hj : (w.calls.set i call')[j]? = some c)
    (hp : c.phase = .loading) : c.started < w.published + 1 := by
  rcases Census.of_set hj with ⟨-, rfl⟩ | ⟨-, hold⟩
  · exact absurd hp hdone
  · exact lt_succ_of_le (hw.started j c hold hp).1

/-! ### What the guard says of a statement -/

/-- The call may take its next statement. -/
structure Allowed (w : World) (i : ℕ) (call : Call) : Prop where
  update : ∀ id groupId row, call.request = .update id (some groupId) → call.phase = .checked →
    w.db.users.get id = some row → policyGroupChanged call groupId ∨ row.policyGroupId = some groupId
  publish : ∀ id groupId row, call.request = .update id (some groupId) → call.phase = .committed →
    w.db.users.get id = some row → row.policyGroupId = some groupId ∨
      ∃ current j c, row.policyGroupId = some current ∧ j ≠ i ∧ w.calls[j]? = some c ∧ c.publishes id current

theorem allowed_of_orderly (hget : w.calls[i]? = some call) (horderly : Orderly w (.next i)) : Allowed w i call := by
  have h := horderly.2
  simp only [hget] at h
  refine ⟨fun id groupId row hrequest hphase hrow => ?_, fun id groupId row hrequest hphase hrow => ?_⟩
  · simpa [hrequest, hphase, hrow] using h
  · simp only [hrequest, hphase, hrow, all_some, Bool.or_eq_true, decide_eq_true_eq] at h
    rcases h with hsame | hother
    · exact .inl hsame
    · cases hcurrent : row.policyGroupId with
      | none => simp [hcurrent] at hother
      | some current =>
        simp only [hcurrent, any_some, List.any_eq_true] at hother
        obtain ⟨c, hc, hpublishes⟩ := hother
        obtain ⟨j, hne, hj⟩ := mem_eraseIdx_iff_getElem?.mp hc
        exact .inr ⟨current, j, c, rfl, hne, hj, hpublishes⟩

def Bounded (w : World) (call : Call) : Prop := call.phase = .loading → w.published < call.started + 2 ^ 64

theorem bounded_of_timely (hget : w.calls[i]? = some call) (h : Timely w (.next i)) : Bounded w call := by
  unfold Bounded
  simpa only [Timely, hget] using h

theorem started_eq (hw : w.Counted) (hget : w.calls[i]? = some call) (hphase : call.phase = .loading)
    (hbound : w.published < call.started + 2 ^ 64) (hgeneration : w.snapshot.generation = call.generation) :
    call.started = w.published := by
  obtain ⟨hle, hmod⟩ := hw.started i call hget hphase
  rw [hw.generation, hmod] at hgeneration
  omega

/-! ### Policies, groups and profiles -/

/-- The load is void, or what it has read still holds, or no load succeeds. -/
def Call.Harmless (connectors : Connectors) (w : World) (call : Call) : Prop :=
  call.phase = .loading → call.started < w.published ∨ call.reads.Fresh w.db.toRouting ∨
    ∃ e, load connectors w.db = .error e

/-- The load is to bring what the database has now. -/
def Call.Current (w : World) (call : Call) : Prop :=
  call.phase = .reload ∨ (call.phase = .loading ∧ (∀ t, call.reads.policies = some t → t = w.db.policies) ∧
    (call.started < w.published ∨ call.reads.Fresh w.db.toRouting))

/-- The snapshot is right and no load is going to spoil it, or a load is going to set it right. -/
def World.Routed (connectors : Connectors) (w : World) : Prop :=
  (w.RoutingAgrees connectors ∧ ∀ (j : ℕ) (c : Call), w.calls[j]? = some c → c.Harmless connectors w) ∨
    ∃ (j : ℕ) (c : Call), w.calls[j]? = some c ∧ c.Current w

theorem get_set_self (hget : w.calls[i]? = some call) : (w.calls.set i call')[i]? = some call' := by
  rw [getElem?_set_self (List.getElem?_eq_some_iff.mp hget).1]

theorem get_set_other (hij : j ≠ i) (hget : w.calls[j]? = some c) : (w.calls.set i call')[j]? = some c := by
  rw [getElem?_set_ne hij.symm]
  exact hget

section Frame

variable (hdb : w'.db.toRouting = w.db.toRouting) (hpublished : w.published ≤ w'.published)
include hdb

theorem agrees_frame (hpolicies : w'.snapshot.policiesById = w.snapshot.policiesById)
    (hgroups : w'.snapshot.policyGroupsById = w.snapshot.policyGroupsById)
    (hprofiles : w'.snapshot.placementProfilesById = w.snapshot.placementProfilesById)
    (h : w.RoutingAgrees connectors) : w'.RoutingAgrees connectors := by
  intro data' hload'
  cases hload : load connectors w.db with
  | error e =>
    have herror := load_error (show w.db.policies = w'.db.policies by rw [hdb]) hload
    rw [hload'] at herror
    cases herror
  | ok data =>
    obtain ⟨hsame, hsame', hsame''⟩ := load_routing hdb.symm hload hload'
    obtain ⟨hagree, hagree', hagree''⟩ := h data hload
    rw [hpolicies, hgroups, hprofiles]
    exact ⟨hagree.trans hsame, hagree'.trans hsame', hagree''.trans hsame''⟩

include hpublished

theorem Call.Harmless.frame (h : c.Harmless connectors w) : c.Harmless connectors w' := by
  intro hphase
  rcases h hphase with hvoid | hfresh | ⟨e, he⟩
  · exact .inl (lt_of_lt_of_le hvoid hpublished)
  · rw [hdb]
    exact .inr (.inl hfresh)
  · exact .inr (.inr ⟨e, load_error (show w.db.policies = w'.db.policies by rw [hdb]) he⟩)

theorem Call.Current.frame (h : c.Current w) : c.Current w' := by
  rcases h with hphase | ⟨hphase, hpolicies, hread⟩
  · exact .inl hphase
  · refine .inr ⟨hphase, ?_, ?_⟩
    · rw [hdb]
      exact hpolicies
    · rw [hdb]
      exact hread.imp_left fun hvoid => lt_of_lt_of_le hvoid hpublished

end Frame

theorem World.Routed.keep (hw : w.Routed connectors) (hget : w.calls[i]? = some call)
    (hdb : w'.db.toRouting = w.db.toRouting) (hpublished : w.published ≤ w'.published) (hcalls : w'.calls = w.calls.set i call') (hpolicies : w'.snapshot.policiesById = w.snapshot.policiesById)
    (hgroups : w'.snapshot.policyGroupsById = w.snapshot.policyGroupsById)
    (hprofiles : w'.snapshot.placementProfilesById = w.snapshot.placementProfilesById)
    (hharmless : call.Harmless connectors w → call'.Harmless connectors w')
    (hcurrent : call.Current w → call'.Current w') : w'.Routed connectors := by
  rcases hw with ⟨hagrees, hall⟩ | ⟨j, c, hj, hc⟩
  · refine .inl ⟨agrees_frame hdb hpolicies hgroups hprofiles hagrees, fun j c hj => ?_⟩
    rw [hcalls] at hj
    rcases Census.of_set hj with ⟨-, rfl⟩ | ⟨-, hold⟩
    · exact hharmless (hall i call hget)
    · exact (hall j c hold).frame hdb hpublished
  · refine .inr ?_
    rw [hcalls]
    by_cases hij : j = i
    · subst hij
      obtain rfl := some.inj (hget.symm.trans hj)
      exact ⟨j, call', get_set_self hget, hcurrent hc⟩
    · exact ⟨j, c, get_set_other hij hj, hc.frame hdb hpublished⟩

theorem not_current (hreload : call.phase ≠ .reload) (hloading : call.phase ≠ .loading) : ¬ call.Current w := by
  rintro (hphase | ⟨hphase, -⟩)
  · exact hreload hphase
  · exact hloading hphase

/-- **One statement**: the tables of placement. -/
theorem routed_effect (hw : w.Counted) (hrouted : w.Routed connectors) (hget : w.calls[i]? = some call)
    (hbounded : Bounded w call) (h : Effect connectors w i call w') : w'.Routed connectors := by
  cases h with
  | moves call' hphase hphase' =>
    obtain ⟨hloading, -, hreload⟩ := phase_of_open (.inl hphase)
    refine hrouted.keep hget rfl (le_refl _) rfl rfl rfl rfl (fun _ hp => ?_) fun hc =>
      absurd hc (not_current hreload hloading)
    exact absurd hp (phase_of_open hphase').1
  | updates id groupId hrequest hphase =>
    refine hrouted.keep hget rfl (le_refl _) rfl rfl rfl rfl (fun _ hp => ?_) fun hc =>
      absurd hc (not_current (by simp [hphase]) (by simp [hphase]))
    split_ifs at hp
  | deletes id hrequest hphase =>
    exact hrouted.keep hget rfl (le_refl _) rfl rfl rfl rfl (fun _ hp => nomatch hp) fun hc =>
      absurd hc (not_current (by simp [hphase]) (by simp [hphase]))
  | publishes id group hphase hrequest =>
    exact hrouted.keep hget rfl (le_succ _) rfl rfl rfl rfl (fun _ hp => nomatch hp) fun hc =>
      absurd hc (not_current (by simp [hphase]) (by simp [hphase]))
  | changes routing hrequest hphase => exact .inr ⟨i, _, get_set_self hget, .inl rfl⟩
  | begins hphase =>
    exact hrouted.keep hget rfl (le_refl _) rfl rfl rfl rfl (fun _ _ => .inr (.inl (Reads.fresh_empty _))) fun _ =>
      .inr ⟨rfl, (fun _ hnone => nomatch hnone), .inr (Reads.fresh_empty _)⟩
  | reads reads hphase hreads =>
    refine hrouted.keep hget rfl (le_refl _) rfl rfl rfl rfl (fun hc _ => ?_) fun hc => ?_
    · rcases hc hphase with hvoid | hfresh | herror
      · exact .inl hvoid
      · exact .inr (.inl (hfresh.next hreads))
      · exact .inr (.inr herror)
    · rcases hc with hreload | ⟨-, hpolicies, hread⟩
      · rw [hreload] at hphase
        cases hphase
      · refine .inr ⟨hphase, fun t ht => ?_, hread.imp_right fun hfresh => hfresh.next hreads⟩
        rcases (reads_next hreads).1 with hsame | hnow
        · exact hpolicies t (hsame ▸ ht)
        · exact (some.inj (hnow.symm.trans ht)).symm
  | fails tables e hphase htables hload =>
    have hkeep : ¬ call.Current w → World.Routed connectors (w.setCall i { call with phase := .failed e }) := fun hnot =>
      hrouted.keep hget rfl (le_refl _) rfl rfl rfl rfl (fun _ hp => nomatch hp) fun hc => absurd hc hnot
    by_cases hc : call.Current w
    · -- what failed is a load of what the database has, so that no load succeeds
      rcases hc with hreload | ⟨-, hpolicies, -⟩
      · rw [hreload] at hphase
        cases hphase
      · have herror := load_error (hpolicies _ (reads_tables htables).1) hload
        refine .inl ⟨fun data hdata => ?_, fun _ _ _ _ => .inr (.inr ⟨e, herror⟩)⟩
        rw [show load connectors w.db = .ok data from hdata] at herror
        cases herror
    · exact hkeep hc
  | retries hphase =>
    exact hrouted.keep hget rfl (le_refl _) rfl rfl rfl rfl (fun _ hp => nomatch hp) fun _ => .inl rfl
  | replaces tables next routing hrequest hphase htables hload hgeneration =>
    have hstarted := started_eq hw hget hphase (hbounded hphase) hgeneration
    have hfresh : call.reads.Fresh w.db.toRouting ∨ (∃ e, load connectors w.db = .error e) →
        World.Routed connectors { w.setCall i { call with phase := .done } with
          snapshot := { next with generation := nextGeneration call.generation }
          published := w.published + 1 } := by
      intro hread
      refine .inl ⟨fun data hdata => ?_, fun j c hj hp => .inl (hw.void (by simp) hj hp)⟩
      rcases hread with hfresh | ⟨e, he⟩
      · have hsame := load_routing (hfresh.tables htables) hload hdata
        exact hsame
      · rw [show load connectors w.db = .ok data from hdata] at he
        cases he
    rcases hrouted with ⟨-, hall⟩ | ⟨j, c, hj, hc⟩
    · rcases hall i call hget hphase with hlt | hread
      · omega
      · exact hfresh hread
    · by_cases hij : j = i
      · subst hij
        obtain rfl := some.inj (hget.symm.trans hj)
        rcases hc with hreload | ⟨-, -, hread⟩
        · rw [hreload] at hphase
          cases hphase
        · exact hfresh (.inl (hread.resolve_left (by omega)))
      · exact .inr ⟨j, c, get_set_other hij hj, Call.Current.frame (w := w) rfl (le_succ _) hc⟩

theorem routed_step {l : Label} (hw : w.Counted) (hrouted : w.Routed connectors) (htimely : Timely w l)
    (h : step connectors w l = some w') : w'.Routed connectors := by
  rcases step_effect h with ⟨request, -, rfl⟩ | ⟨i, call, rfl, hget, heffect⟩ | ⟨i, call, e, hget, hopen, rfl⟩
  · rcases hrouted with ⟨hagrees, hall⟩ | ⟨j, c, hj, hc⟩
    · refine .inl ⟨hagrees, fun j c hj => ?_⟩
      rcases get_append hj with hold | rfl
      · exact hall j c hold
      · exact fun hp => nomatch hp
    · refine .inr ⟨j, c, ?_, hc⟩
      exact (getElem?_append_left (List.getElem?_eq_some_iff.mp hj).1).trans hj
  · exact routed_effect hw hrouted hget (bounded_of_timely hget htimely) heffect
  · exact routed_effect hw hrouted hget (fun hp => absurd hp (phase_of_open (.inl hopen)).1) (.ends hopen rfl)

/-! ### The groups of users -/

def World.Pending (w : World) (id groupId : ℕ) : Prop :=
  ∃ (j : ℕ) (c : Call), w.calls[j]? = some c ∧ c.publishes id groupId

/-- A user has the group that `f` says, or one that is going to be published. -/
def Covers (w : World) (f : ℕ → Option ℕ) : Prop :=
  ∀ user ∈ w.db.users.rows,
    f user.id = user.policyGroupId ∨ ∃ groupId, user.policyGroupId = some groupId ∧ w.Pending user.id groupId

def groupOf (users : Table User.id) (id : ℕ) : Option ℕ := (users.get id).bind User.policyGroupId

structure World.Assigned (w : World) : Prop where
  snapshot : Covers w w.snapshot.userPolicyGroupByUserId
  loads : ∀ (j : ℕ) (c : Call), w.calls[j]? = some c → c.phase = .loading →
    c.started < w.published ∨ ∀ t, c.reads.users = some t → Covers w (groupOf t)

theorem publishes_iff : call.publishes id groupId ↔ call.request = .update id (some groupId) ∧ call.phase = .committed := by
  unfold Call.publishes
  split
  · rename_i hrequest hphase
    simp [hrequest, hphase]
  · rename_i hnot
    simp only [Bool.false_eq_true, false_iff]
    rintro ⟨hrequest, hphase⟩
    exact hnot id groupId hrequest hphase

theorem World.Pending.keep (hget : w.calls[i]? = some call) (hcalls : w'.calls = w.calls.set i call')
    (hnot : ¬ call.publishes id groupId) (h : w.Pending id groupId) : w'.Pending id groupId := by
  obtain ⟨j, c, hj, hc⟩ := h
  have hij : j ≠ i := by
    rintro rfl
    obtain rfl := some.inj (hget.symm.trans hj)
    exact hnot hc
  refine ⟨j, c, ?_, hc⟩
  rw [hcalls]
  exact get_set_other hij hj

theorem not_publishes (hphase : call.phase ≠ .committed) : ¬ call.publishes id groupId := fun h =>
  hphase ((publishes_iff).mp h).2

theorem Covers.frame {f : ℕ → Option ℕ} (hrows : ∀ user ∈ w'.db.users.rows, user ∈ w.db.users.rows)
    (hpending : ∀ id groupId, w.Pending id groupId → w'.Pending id groupId) (h : Covers w f) : Covers w' f := by
  intro user huser
  rcases h user (hrows user huser) with heq | ⟨groupId, hgroup, hp⟩
  · exact .inl heq
  · exact .inr ⟨groupId, hgroup, hpending _ _ hp⟩

theorem World.Assigned.keep (hw : w.Assigned) (hcalls : w'.calls = w.calls.set i call')
    (hsnapshot : w'.snapshot.userPolicyGroupByUserId = w.snapshot.userPolicyGroupByUserId)
    (hpublished : w.published ≤ w'.published) (hcovers : ∀ {f : ℕ → Option ℕ}, Covers w f → Covers w' f)
    (hloading : call'.phase = .loading →
      call'.started < w'.published ∨ ∀ t, call'.reads.users = some t → Covers w' (groupOf t)) : w'.Assigned := by
  refine ⟨?_, fun j c hj hp => ?_⟩
  · rw [hsnapshot]
    exact hcovers hw.snapshot
  · rw [hcalls] at hj
    rcases Census.of_set hj with ⟨-, rfl⟩ | ⟨-, hold⟩
    · exact hloading hp
    · rcases hw.loads j c hold hp with hvoid | hread
      · exact .inl (lt_of_lt_of_le hvoid hpublished)
      · exact .inr fun t ht => hcovers (hread t ht)

theorem covers_update {f : ℕ → Option ℕ} (hget : w.calls[i]? = some call) (hallowed : Allowed w i call)
    (hrequest : call.request = .update id (some groupId)) (hphase : call.phase = .checked)
    (hcalls : w'.calls =
      w.calls.set i { call with phase := if policyGroupChanged call groupId then .committed else .done })
    (husers : w'.db.users = assignGroup w.db.users id groupId) (h : Covers w f) : Covers w' f := by
  have hkeep : ∀ k g, w.Pending k g → w'.Pending k g := fun k g =>
    .keep hget hcalls (not_publishes (by simp [hphase]))
  intro user huser
  rw [husers] at huser
  rcases mem_assignGroup huser with ⟨hrow, -⟩ | ⟨row, hrow, hid, rfl⟩
  · rcases h user hrow with heq | ⟨g, hgroup, hp⟩
    · exact .inl heq
    · exact .inr ⟨g, hgroup, hkeep _ _ hp⟩
  · rcases hallowed.update id groupId row hrequest hphase (hid ▸ Table.get_of_mem hrow) with hchanged | hsame
    · -- the call is going to publish the group
      refine .inr ⟨groupId, rfl, i, { call with phase := .committed }, ?_, (publishes_iff).mpr ⟨hid ▸ hrequest, rfl⟩⟩
      rw [hcalls, if_pos hchanged]
      exact get_set_self hget
    · rcases h row hrow with heq | ⟨g, hgroup, hp⟩
      · exact .inl (heq.trans hsame)
      · obtain rfl := some.inj (hsame.symm.trans hgroup)
        exact .inr ⟨groupId, rfl, hkeep _ _ hp⟩

theorem covers_publish {group : Option ℕ} (hw : w.Counted) (hget : w.calls[i]? = some call)
    (hallowed : Allowed w i call) (hphase : call.phase = .committed)
    (hrequest : (call.request = .update id group ∧ group.isSome) ∨ (call.request = .forceDelete id ∧ group = none))
    (h : Covers w w.snapshot.userPolicyGroupByUserId) :
    Covers (publish w i call id group) (Function.update w.snapshot.userPolicyGroupByUserId id group) := by
  intro user (hrow : user ∈ w.db.users.rows)
  by_cases hid : user.id = id
  · have hrowGet : w.db.users.get id = some user := hid ▸ Table.get_of_mem hrow
    rcases hrequest with ⟨hupdate, hsome⟩ | ⟨hdelete, -⟩
    · obtain ⟨groupId, rfl⟩ := isSome_iff_exists.mp hsome
      rcases hallowed.publish id groupId user hupdate hphase hrowGet with hsame | ⟨current, j, c, hcurrent, hij, hj, hc⟩
      · refine .inl ?_
        rw [hid, update_self, hsame]
      · exact .inr ⟨current, hcurrent, j, c, get_set_other hij hj, hid ▸ hc⟩
    · rw [hw.gone i call id hget hphase hdelete] at hrowGet
      cases hrowGet
  · rcases h user hrow with heq | ⟨groupId, hgroup, hp⟩
    · refine .inl ?_
      rw [update_of_ne hid]
      exact heq
    · refine .inr ⟨groupId, hgroup, hp.keep hget rfl fun hpublishes => ?_⟩
      have hown := ((publishes_iff).mp hpublishes).1
      rcases hrequest with ⟨hupdate, -⟩ | ⟨hdelete, -⟩
      · exact hid (Request.update.inj (hown.symm.trans hupdate)).1
      · rw [hdelete] at hown
        cases hown

theorem Covers.moves {f : ℕ → Option ℕ} (hget : w.calls[i]? = some call) (hphase : call.phase ≠ .committed)
    (hcalls : w'.calls = w.calls.set i call') (husers : w'.db.users = w.db.users) (h : Covers w f) : Covers w' f :=
  h.frame (fun _ huser => husers ▸ huser) fun _ _ => .keep hget hcalls (not_publishes hphase)

theorem assigned_moves (hassigned : w.Assigned) (hget : w.calls[i]? = some call) (hphase : call.phase.isOpen)
    (hphase' : call'.phase.isOpen ∨ call'.phase.isOver) : (w.setCall i call').Assigned :=
  hassigned.keep rfl rfl (le_refl _) (.moves hget (phase_of_open (.inl hphase)).2.1 rfl rfl) fun hp =>
    absurd hp (phase_of_open hphase').1

/-- **One statement**: the groups of users. -/
theorem assigned_effect (hw : w.Counted) (hassigned : w.Assigned) (hget : w.calls[i]? = some call)
    (hbounded : Bounded w call) (hallowed : Allowed w i call) (h : Effect connectors w i call w') : w'.Assigned := by
  cases h with
  | moves call' hphase hphase' => exact assigned_moves hassigned hget hphase hphase'
  | updates id groupId hrequest hphase =>
    refine hassigned.keep rfl rfl (le_refl _) (covers_update hget hallowed hrequest hphase rfl rfl) fun hp => ?_
    split_ifs at hp
  | deletes id hrequest hphase =>
    refine hassigned.keep rfl rfl (le_refl _) (fun hcovers => hcovers.frame (fun user huser => ?_) fun _ _ => ?_)
      fun hp => nomatch hp
    · exact (Table.mem_deleteWhere.mp huser).1
    · exact .keep hget rfl (not_publishes (by simp [hphase]))
  | publishes id group hphase hrequest =>
    exact ⟨covers_publish hw hget hallowed hphase hrequest hassigned.snapshot, fun j c hj hp =>
      .inl (hw.void (by simp) hj hp)⟩
  | changes routing hrequest hphase | fails tables e hphase htables hload | retries hphase =>
    exact hassigned.keep rfl rfl (le_refl _) (.moves hget (by simp [hphase]) rfl rfl) fun hp => nomatch hp
  | begins hphase =>
    exact hassigned.keep rfl rfl (le_refl _) (.moves hget (by simp [hphase]) rfl rfl) fun _ =>
      .inr fun _ hnone => nomatch hnone
  | reads reads hphase hreads =>
    have hcovers : ∀ {f : ℕ → Option ℕ}, Covers w f → Covers (w.setCall i { call with reads := reads }) f :=
      Covers.moves hget (by simp [hphase]) rfl rfl
    refine hassigned.keep rfl rfl (le_refl _) hcovers fun _ => ?_
    rcases hassigned.loads i call hget hphase with hvoid | hread
    · exact .inl hvoid
    · refine .inr fun t ht => ?_
      rcases (reads_next hreads).2.2.2.2.2 with hold | hnow
      · exact hcovers (hread t (hold ▸ ht))
      · obtain rfl := some.inj (hnow.symm.trans ht)
        intro user (huser : user ∈ w.db.users.rows)
        refine .inl ?_
        show (w.db.users.get user.id).bind User.policyGroupId = user.policyGroupId
        rw [Table.get_of_mem huser]
        rfl
  | replaces tables next routing hrequest hphase htables hload hgeneration =>
    have hstarted := started_eq hw hget hphase (hbounded hphase) hgeneration
    refine ⟨?_, fun j c hj hp => .inl (hw.void (by simp) hj hp)⟩
    show Covers _ next.userPolicyGroupByUserId
    rw [load_users hload]
    have hread := (hassigned.loads i call hget hphase).resolve_left (by omega)
    have hcovers := hread tables.users (reads_tables htables).2.2.2.2.2
    exact Covers.moves (w := w) hget (by simp [hphase]) rfl rfl hcovers

theorem assigned_step {l : Label} (hw : w.Counted) (hassigned : w.Assigned) (horderly : Orderly w l)
    (h : step connectors w l = some w') : w'.Assigned := by
  rcases step_effect h with ⟨request, -, rfl⟩ | ⟨i, call, rfl, hget, heffect⟩ | ⟨i, call, e, hget, hopen, rfl⟩
  · have hcovers : ∀ {f : ℕ → Option ℕ}, Covers w f →
        Covers { w with calls := w.calls ++ [({ request := request } : Call)] } f := by
      intro f hold
      refine Covers.frame (w := w) (fun _ huser => huser) (fun id groupId hpending => ?_) hold
      obtain ⟨j, c, hj, hc⟩ := hpending
      exact ⟨j, c, (getElem?_append_left (List.getElem?_eq_some_iff.mp hj).1).trans hj, hc⟩
    refine ⟨hcovers hassigned.snapshot, fun j c hj hp => ?_⟩
    rcases get_append hj with hold | rfl
    · exact (hassigned.loads j c hold hp).imp_right fun hread t ht => hcovers (hread t ht)
    · cases hp
  · exact assigned_effect hw hassigned hget (bounded_of_timely hget horderly.1) (allowed_of_orderly hget horderly) heffect
  · exact assigned_moves hassigned hget hopen (.inr rfl)

/-! ### Runs -/

theorem routed_of_reach (h₀ : w₀.Fresh connectors) (h : (snapshots connectors).Reach Timely w₀ w) :
    w.Routed connectors :=
  h.strengthen (I := World.Routed connectors) (J := World.Counted) (fun hr => counted_of_reach h₀ hr)
    (.inl ⟨h₀.routing, fun j c hj => by simp [h₀.calls] at hj⟩)
    fun hrouted hw _ htimely hstep => routed_step hw hrouted htimely hstep

theorem assigned_of_reach (h₀ : w₀.Fresh connectors) (h : (snapshots connectors).Reach Orderly w₀ w) : w.Assigned :=
  h.strengthen (I := World.Assigned) (J := World.Counted) (fun hr => counted_of_reach h₀ hr)
    ⟨fun user huser => .inl (h₀.users user huser), fun j c hj => by simp [h₀.calls] at hj⟩
    fun hassigned hw _ horderly hstep => assigned_step hw hassigned horderly hstep

theorem World.Quiet.not_current (hquiet : w.Quiet) (hj : w.calls[j]? = some c) : ¬ c.Current w := by
  have hover := hquiet c (mem_of_getElem? hj)
  obtain ⟨hloading, -, hreload⟩ := phase_of_open (.inr hover)
  exact Placement.not_current hreload hloading

/-- When nothing is in progress, the policies, groups and profiles are those of the database; and, if no two updates of a
user are at odds, so are the groups of the users. -/
theorem snapshot_converges (h₀ : w₀.Fresh connectors) :
    (∀ {w}, (snapshots connectors).Reach Timely w₀ w → w.Quiet → w.RoutingAgrees connectors) ∧
      ∀ {w}, (snapshots connectors).Reach Orderly w₀ w → w.Quiet → w.UsersAgree := by
  refine ⟨fun h hquiet => ?_, fun h hquiet user huser => ?_⟩
  · rcases routed_of_reach h₀ h with ⟨hagrees, -⟩ | ⟨j, c, hj, hc⟩
    · exact hagrees
    · exact absurd hc (hquiet.not_current hj)
  · rcases (assigned_of_reach h₀ h).snapshot user huser with heq | ⟨groupId, -, j, c, hj, hc⟩
    · exact heq
    · have hover := hquiet c (mem_of_getElem? hj)
      exact absurd (publishes_iff.mp hc).2 (phase_of_open (.inr hover)).2.1

/-! ### Two updates of a user -/

def defaultPayload : String := "\x7b\"format_version\":1,\"schema_version\":1,\"values\":\x7b\x7d\x7d"

/-- Local policies, and the JSON of the default payloads. -/
def localConnectors : Connectors where
  resolveRemotePolicyBinding := fun _ => .ok none
  resolvePolicyUploadTransport := fun _ => .ok ()
  matcherFromStr := fun text => if text = defaultPayload then some ⟨1, 1, {}⟩ else none
  admissionFromStr := fun text => if text = defaultPayload then some ⟨1, 1, {}⟩ else none
  normalizeExtensionFilter := .ok

def policyGroup (id : ℕ) (isDefault : Bool) : StoragePolicyGroup :=
  ⟨id, "Group", "", true, isDefault, defaultPayload, "automatic", 1⟩

def groupRule (id : ℕ) : StoragePolicyGroupRule :=
  ⟨id, id, "Default placement rule", "Automatic default target", 1, true, defaultPayload, "first_available", "next_rule"⟩

/-- Three groups, each with a rule and a target. -/
def threeGroups : Tables where
  policies := ⟨[⟨1, "Local", "local", "", 0, "[]", true, 5242880⟩], by decide⟩
  policyGroups := ⟨[policyGroup 1 true, policyGroup 2 false, policyGroup 3 false], by decide⟩
  placementRules := ⟨[groupRule 1, groupRule 2, groupRule 3], by decide⟩
  placementTargets := ⟨[⟨1, 1, 1, 100, true, 1⟩, ⟨2, 2, 1, 100, true, 1⟩, ⟨3, 3, 1, 100, true, 1⟩], by decide⟩
  managedFollowers := ⟨[], by decide⟩
  users := ⟨[⟨1, true, some 1⟩, ⟨2, false, some 1⟩], by decide⟩
  teams := ⟨[], by decide⟩

def nothingLoaded : PolicySnapshotData :=
  ⟨0, fun _ => none, fun _ => none, fun _ => none, fun _ => none, fun _ => none, [], fun _ => none, none, none⟩

/-- A process that has just started. -/
def started : World where
  db := threeGroups
  snapshot :=
    match load localConnectors threeGroups with
    | .ok data => data
    | .error _ => nothingLoaded
  published := 0
  calls := []

theorem started_users : ∀ user ∈ started.db.users.rows,
    started.snapshot.resolveDefaultPolicyGroupId user.id = user.policyGroupId := by
  decide

theorem started_fresh : started.Fresh localConnectors := by
  refine ⟨rfl, by decide, started_users, fun data hload => ?_⟩
  have hsnapshot : started.snapshot = data := by
    unfold started
    simp only [show load localConnectors threeGroups = .ok data from hload]
  rw [hsnapshot]
  exact ⟨rfl, rfl, rfl⟩

theorem quiet_of_phases {phases : List Phase} (h : w.calls.map Call.phase = phases) (hover : phases.all Phase.isOver) :
    w.Quiet := by
  intro call hcall
  rw [← h, List.all_map] at hover
  exact List.all_eq_true.mp hover call hcall

/-- A rule is renamed. -/
def renamed : Routing :=
  { threeGroups.toRouting with
    placementRules := ⟨[{ groupRule 1 with name := "Images" }, groupRule 2, groupRule 3], by decide⟩ }

/-- User 2 gets group 2 and then group 3, while a reload reads the tables. -/
def inTurn : List Label :=
  [.start (.change renamed), .start (.update 2 (some 2)), .start (.update 2 (some 3))] ++ List.replicate 8 (.next 0) ++
    List.replicate 5 (.next 1) ++ List.replicate 4 (.next 2) ++ List.replicate 2 (.next 0) ++ [.next 2] ++
    List.replicate 9 (.next 0)

theorem inTurn_runs : ((snapshots localConnectors).run Orderly inTurn started).map
    (fun w => (w.calls.map Call.phase, w.snapshot.resolveDefaultPolicyGroupId 2)) =
      some ([.done, .done, .done], some 3) := by
  decide

theorem snapshot_converges_inTurn : ∃ w, (snapshots localConnectors).Reach Orderly started w ∧ w.Quiet ∧ w.UsersAgree ∧
    w.snapshot.resolveDefaultPolicyGroupId 2 = some 3 := by
  obtain ⟨w, hrun, hphases, hgroup⟩ := map_pair_eq_some inTurn_runs
  have hreach := Lts.reach_of_run hrun
  have hquiet := quiet_of_phases hphases rfl
  exact ⟨w, hreach, hquiet, (snapshot_converges started_fresh).2 hreach hquiet, hgroup⟩

/-- Both updates read group 1; group 2 is committed first and published last. -/
def crossed : List Label :=
  [.start (.update 2 (some 2)), .start (.update 2 (some 3))] ++ List.replicate 3 (.next 0) ++ List.replicate 3 (.next 1) ++
    [.next 0, .next 1, .next 1, .next 0]

theorem crossed_runs : ((snapshots localConnectors).run Lts.free crossed started).map
    (fun w => (w.calls.map Call.phase, w.snapshot.resolveDefaultPolicyGroupId 2, w.db.users.get 2)) =
      some ([.done, .done], some 2, some ⟨2, false, some 3⟩) := by
  decide

theorem users_disagree : started.Fresh localConnectors ∧
    ∃ w, (snapshots localConnectors).Reach Lts.free started w ∧ w.Quiet ∧ ¬ w.UsersAgree := by
  obtain ⟨w, hrun, hphases, hrest⟩ := map_pair_eq_some crossed_runs
  obtain ⟨hgroup, hrow⟩ := Prod.mk.inj hrest
  refine ⟨started_fresh, w, Lts.reach_of_run hrun, quiet_of_phases hphases rfl, fun hagree => ?_⟩
  have hsame := hagree _ (Table.mem_of_get hrow)
  rw [show w.snapshot.resolveDefaultPolicyGroupId 2 = some 2 from hgroup] at hsame
  cases hsame

end AsterDrive.Placement
