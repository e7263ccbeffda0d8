import AsterDrive.Workspace.TeamLocks

/-!
# Workspace.LastOwner — a team keeps an owner and a manager

A call counts under the lock of its team, so that another owner or manager is there until it commits (`Call.Guarded`). A
user that is deleted takes its memberships along without a look at its teams; that nothing is lost then is the condition
`Spares`.
-/

namespace AsterDrive.Workspace.TeamMembers

open TeamMemberRole

open List Option SerialTable Phase

variable {w w' w₀ : World} {i j teamId : ℕ} {call call' c : Call} {p : TeamMemberRole → Bool}

/-! ### Roles that are held -/

/-- A member of the team has a role that meets `p`. -/
def World.Has (w : World) (p : TeamMemberRole → Bool) (teamId : ℕ) : Prop :=
  ∃ m ∈ w.members.rows, m.teamId = teamId ∧ p m.role

def World.HasOther (w : World) (p : TeamMemberRole → Bool) (teamId id : ℕ) : Prop :=
  ∃ m ∈ w.members.rows, m.teamId = teamId ∧ p m.role ∧ m.id ≠ id

theorem canManageTeam_of_isOwner {role : TeamMemberRole} (h : role.isOwner) : role.canManageTeam := by
  cases role with
  | owner | admin => rfl
  | member => exact h

theorem mem_managers {m : TeamMember} :
    m ∈ w.managers teamId ↔ m ∈ w.members.rows ∧ m.teamId = teamId ∧ m.role.canManageTeam := by
  simp [World.managers]

theorem hasOwner_iff : w.HasOwner teamId ↔ w.Has isOwner teamId := by
  constructor
  · rintro ⟨m, hm, howner⟩
    obtain ⟨hrow, hteam, -⟩ := (mem_managers).mp hm
    exact ⟨m, hrow, hteam, howner⟩
  · rintro ⟨m, hrow, hteam, howner⟩
    exact ⟨m, (mem_managers).mpr ⟨hrow, hteam, canManageTeam_of_isOwner howner⟩, howner⟩

theorem hasManager_iff : w.HasManager teamId ↔ w.Has canManageTeam teamId := by
  constructor
  · intro h
    obtain ⟨m, hm⟩ := exists_mem_of_ne_nil _ h
    exact ⟨m, (mem_managers).mp hm⟩
  · rintro ⟨m, hm⟩
    exact ne_nil_of_mem ((mem_managers).mpr hm)

/-- The managers stay managers. -/
def Retains (w w' : World) (teamId : ℕ) : Prop :=
  ∀ m ∈ w.members.rows, m.teamId = teamId → m.role.canManageTeam → m ∈ w'.members.rows

theorem Retains.same (h : w'.members = w.members) : Retains w w' teamId := fun m hm _ _ => by
  rw [h]
  exact hm

theorem World.HasOther.retained {id : ℕ} (hp : ∀ role, p role → role.canManageTeam) (h : w.HasOther p teamId id)
    (hretains : Retains w w' teamId) : w'.HasOther p teamId id := by
  obtain ⟨m, hrow, hteam, hrole, hne⟩ := h
  exact ⟨m, hretains m hrow hteam (hp _ hrole), hteam, hrole, hne⟩

theorem World.Has.retained (hp : ∀ role, p role → role.canManageTeam) (h : w.Has p teamId)
    (hretains : Retains w w' teamId) : w'.Has p teamId := by
  obtain ⟨m, hrow, hteam, hrole⟩ := h
  exact ⟨m, hretains m hrow hteam (hp _ hrole), hteam, hrole⟩

/-! ### Counts -/

theorem has_of_count {role : TeamMemberRole} (h : 1 ≤ countByTeamAndRole w teamId role) (hp : p role) :
    w.Has p teamId := by
  obtain ⟨m, hrow, hmatch⟩ := countP_pos_iff.mp h
  simp only [Bool.decide_and, Bool.and_eq_true, decide_eq_true_eq] at hmatch
  exact ⟨m, hrow, hmatch.1, hmatch.2.1 ▸ hp⟩

theorem hasOther_of_count {role : TeamMemberRole} (id : ℕ) (h : 2 ≤ countByTeamAndRole w teamId role) (hp : p role) :
    w.HasOther p teamId id := by
  obtain ⟨m, hrow, hmatch, hne⟩ := Table.exists_of_two_le_affected (t := w.members.toTable) id h
  simp only [Bool.decide_and, Bool.and_eq_true, decide_eq_true_eq] at hmatch
  exact ⟨m, hrow, hmatch.1, hmatch.2.1 ▸ hp, hne⟩

theorem hasOther_of_counts {id ownerCount : ℕ} (howner : 1 ≤ ownerCount → w.Has isOwner teamId)
    (hother : 2 ≤ ownerCount → w.HasOther isOwner teamId id)
    (h : 2 ≤ ownerCount + countByTeamAndRole w teamId .admin) :
    w.HasOther canManageTeam teamId id := by
  by_cases htwo : 2 ≤ ownerCount
  · obtain ⟨m, hrow, hteam, hrole, hne⟩ := hother htwo
    exact ⟨m, hrow, hteam, canManageTeam_of_isOwner hrole, hne⟩
  by_cases hone : 1 ≤ ownerCount
  · -- an owner and an admin are two rows
    obtain ⟨m, hrow, hteam, hrole⟩ := howner hone
    obtain ⟨m', hrow', hteam', hrole'⟩ :=
      has_of_count (p := fun role => role = .admin) (show 1 ≤ countByTeamAndRole w teamId .admin by omega) rfl
    have hadmin : m'.role = .admin := of_decide_eq_true hrole'
    by_cases hid : m.id = id
    · refine ⟨m', hrow', hteam', by rw [hadmin]; rfl, fun hid' => ?_⟩
      obtain rfl : m = m' := Table.eq_of_key hrow hrow' (hid.trans hid'.symm)
      rw [hadmin] at hrole
      cases hrole
    · exact ⟨m, hrow, hteam, canManageTeam_of_isOwner hrole, hid⟩
  · exact hasOther_of_count id (show 2 ≤ countByTeamAndRole w teamId .admin by omega) rfl

/-! ### What a call has made sure of -/

def Phase.managersKnown : Phase → Bool
  | .checked | .written | .confirmed => true
  | _ => false

structure Call.Guarded (w : World) (call : Call) : Prop where
  owner : call.phase.ownersKnown → ∀ teamId target, call.user = none → call.request.team = some teamId →
    call.target = some target → losesOwner call.request target → w.HasOther isOwner teamId target.id
  manager : call.phase.managersKnown → ∀ teamId target, call.user = none → call.request.team = some teamId →
    call.target = some target → losesManager call.request target → w.HasOther canManageTeam teamId target.id
  counted : call.phase = .ownersOfManagers → ∀ teamId target, call.request.team = some teamId →
    call.target = some target → losesManager call.request target → (1 ≤ call.ownerCount → w.Has isOwner teamId) ∧
        (2 ≤ call.ownerCount → w.HasOther isOwner teamId target.id)

def World.Guarded (w : World) : Prop := ∀ (j : ℕ) (c : Call), w.calls[j]? = some c → c.Guarded w

theorem holdsTeam_of_ownersKnown {phase : Phase} (h : phase.ownersKnown) : phase.holdsTeam := by
  cases phase <;> simp_all [ownersKnown, holdsTeam]

theorem ownersKnown_of_managersKnown {phase : Phase} (h : phase.managersKnown) : phase.ownersKnown := by
  cases phase <;> simp_all [ownersKnown, managersKnown]

theorem Call.Guarded.frame (h : c.Guarded w) (hretains : ∀ teamId, c.holds teamId → Retains w w' teamId) :
    c.Guarded w' := by
  refine ⟨fun hphase t target huser hteam htarget hloses => ?_, fun hphase t target huser hteam htarget hloses => ?_,
    fun hphase t target hteam htarget hloses => ?_⟩
  · have hheld := holdsTeam_of_ownersKnown hphase
    exact (h.owner hphase t target huser hteam htarget hloses).retained (fun _ => canManageTeam_of_isOwner)
      (hretains t (holds_iff.mpr ⟨hheld, hteam⟩))
  · have hheld := holdsTeam_of_ownersKnown (ownersKnown_of_managersKnown hphase)
    exact (h.manager hphase t target huser hteam htarget hloses).retained (fun _ hrole => hrole)
      (hretains t (holds_iff.mpr ⟨hheld, hteam⟩))
  · have hkept := hretains t (holds_iff.mpr ⟨by simp [hphase, holdsTeam], hteam⟩)
    obtain ⟨howner, hother⟩ := h.counted hphase t target hteam htarget hloses
    exact ⟨fun hone => (howner hone).retained (fun _ => canManageTeam_of_isOwner) hkept,
      fun htwo => (hother htwo).retained (fun _ => canManageTeam_of_isOwner) hkept⟩

theorem guarded_of_unknown (h : c.phase.ownersKnown = false) : c.Guarded w where
  owner := fun hphase => absurd hphase (by simp [h])
  manager := fun hphase => absurd (ownersKnown_of_managersKnown hphase) (by simp [h])
  counted := fun hphase => absurd h (by simp [hphase, ownersKnown])

/-! ### What a statement does to the managers -/

theorem write_keeps {members : SerialTable TeamMember.id} {m : TeamMember} (h : Write w call teamId members)
    (hm : m ∈ w.members.rows) (hne : ∀ target, call.user = none → call.target = some target → m.id ≠ target.id) :
    m ∈ members.rows := by
  cases h with
  | insert user input huser hadd => exact mem_insert.mpr (.inl hm)
  | update target role huser htarget hrole =>
    exact mem_updateRows.mpr ⟨m, hm, if_neg (by simpa using hne target huser htarget)⟩
  | delete target huser htarget hrole =>
    exact mem_deleteRows.mpr ⟨hm, by simpa using hne target huser htarget⟩
  | nothing _ _ => exact hm

theorem write_target {members : SerialTable TeamMember.id} {target : TeamMember} {role : TeamMemberRole}
    (h : Write w call teamId members) (hm : target ∈ w.members.rows) (huser : call.user = none)
    (htarget : call.target = some target) (hrole : call.request.newRole = some role) :
    { target with role := role } ∈ members.rows := by
  cases h with
  | insert user input huser' hadd =>
    rw [huser] at huser'
    cases huser'
  | update target' role' huser' htarget' hrole' =>
    obtain rfl := some.inj (htarget.symm.trans htarget')
    obtain rfl := some.inj (hrole.symm.trans hrole')
    exact mem_updateRows.mpr ⟨target, hm, if_pos (by simp)⟩
  | delete target' huser' htarget' hrole' =>
    rw [hrole] at hrole'
    cases hrole'
  | nothing _ hnone =>
    rw [hnone] at htarget
    cases htarget

section Commit

variable (hw : w.Consistent) (hcall : call.Sound w) (hphase : call.phase.isWritten)
variable (hteam : call.request.team = some teamId) {members : SerialTable TeamMember.id}
variable (hwrite : Write w call teamId members)
include hcall hphase hteam hwrite

theorem commit_retains (hmembers : w'.members = members) {other : ℕ} (hother : other ≠ teamId) : Retains w w' other := by
  intro m hm hm' _
  rw [hmembers]
  exact (other_team_rows hcall hphase hteam hwrite (hm' ▸ hother)).mpr hm

theorem commit_has (hmembers : w'.members = members)
    (hloses : ∀ target, call.user = none → call.target = some target → p target.role →
      call.request.newRole.any p = false → w.HasOther p teamId target.id)
    (h : w.Has p teamId) : w'.Has p teamId := by
  have hothers : ∀ {id : ℕ}, (∀ target, call.user = none → call.target = some target → target.id = id) →
      w.HasOther p teamId id → w'.Has p teamId := by
    rintro id hid ⟨m, hrow, hrowTeam, hrole, hne⟩
    refine ⟨m, ?_, hrowTeam, hrole⟩
    rw [hmembers]
    exact write_keeps hwrite hrow fun target huser htarget heq => hne (heq.trans (hid target huser htarget))
  obtain ⟨m, hrow, hrowTeam, hrole⟩ := h
  by_cases hkept : ∀ target, call.user = none → call.target = some target → m.id ≠ target.id
  · exact ⟨m, hmembers ▸ write_keeps hwrite hrow hkept, hrowTeam, hrole⟩
  push Not at hkept
  obtain ⟨target, huser, htarget, hid⟩ := hkept
  have hunique : ∀ target', call.user = none → call.target = some target' → target'.id = target.id := by
    intro target' _ htarget'
    rw [some.inj (htarget.symm.trans htarget')]
  obtain ⟨rfl, -⟩ := target_row hcall hphase hteam huser htarget hrow hid
  cases hany : call.request.newRole.any p with
  | false => exact hothers hunique (hloses m huser htarget hrole hany)
  | true =>
    obtain ⟨role, hnew, hp⟩ : ∃ role, call.request.newRole = some role ∧ p role := by
      cases hnew : call.request.newRole with
      | none => simp [hnew] at hany
      | some role => exact ⟨role, rfl, by simpa [hnew] using hany⟩
    exact ⟨{ m with role := role }, hmembers ▸ write_target hwrite hrow huser htarget hnew, hrowTeam, hp⟩

end Commit

/-! ### A user is deleted -/

theorem dispensable_spec {userId : ℕ} (h : w.dispensable userId) {m : TeamMember} (hrow : m ∈ w.members.rows)
    (huser : m.userId = userId) (hmanager : m.role.canManageTeam) :
    ∃ o ∈ w.members.rows, o.teamId = m.teamId ∧ o.role.canManageTeam ∧ o.userId ≠ userId ∧
      w.outgoing losesManager o = false ∧ (m.role.isOwner → o.role.isOwner ∧ w.outgoing losesOwner o = false) := by
  have hall := List.all_eq_true.mp h m hrow
  simp only [huser, hmanager, ne_eq, not_true_eq_false, decide_false, Bool.not_true, Bool.or_self, Bool.false_or,
    Bool.and_eq_true, List.any_eq_true] at hall
  obtain ⟨o, ho, ⟨hne, hstays⟩, howner⟩ := hall
  obtain ⟨horow, hoteam, homanager⟩ := mem_managers.mp ho
  refine ⟨o, horow, hoteam, homanager, by simpa using hne, by simpa using hstays, fun hisOwner => ?_⟩
  simpa [hisOwner] using howner

theorem ne_of_outgoing {loses : Request → TeamMember → Bool} {o target : TeamMember} (hget : w.calls[j]? = some c)
    (hknown : c.phase.ownersKnown) (htarget : c.target = some target) (hloses : loses c.request target)
    (h : w.outgoing loses o = false) : o.id ≠ target.id := by
  intro hid
  have hnone := List.any_eq_false.mp h c (mem_of_getElem? hget)
  simp [hknown, htarget, hid, hloses] at hnone

section Delete

variable {userId : ℕ} (hmembers : w'.members = w.members.deleteRows fun m => m.userId = userId)
variable (hspares : w.dispensable userId)
include hmembers hspares

omit hspares in
theorem delete_keeps {m : TeamMember} (hrow : m ∈ w.members.rows) (hne : m.userId ≠ userId) : m ∈ w'.members.rows := by
  rw [hmembers]
  exact mem_deleteRows.mpr ⟨hrow, decide_eq_false hne⟩

theorem delete_other_owner {m : TeamMember} (hrow : m ∈ w.members.rows) (howner : m.role.isOwner) :
    m ∈ w'.members.rows ∨ ∃ o ∈ w'.members.rows, o.teamId = m.teamId ∧ o.role.isOwner ∧
      w.outgoing losesManager o = false ∧ w.outgoing losesOwner o = false := by
  by_cases huser : m.userId = userId
  · obtain ⟨o, horow, hoteam, -, hne, hstays, hother⟩ :=
      dispensable_spec hspares hrow huser (canManageTeam_of_isOwner howner)
    obtain ⟨hoowner, hostays⟩ := hother howner
    exact .inr ⟨o, delete_keeps hmembers horow hne, hoteam, hoowner, hstays, hostays⟩
  · exact .inl (delete_keeps hmembers hrow huser)

theorem delete_other_manager {m : TeamMember} (hrow : m ∈ w.members.rows) (hmanager : m.role.canManageTeam) :
    m ∈ w'.members.rows ∨ ∃ o ∈ w'.members.rows, o.teamId = m.teamId ∧ o.role.canManageTeam ∧
      w.outgoing losesManager o = false := by
  by_cases huser : m.userId = userId
  · obtain ⟨o, horow, hoteam, homanager, hne, hstays, -⟩ := dispensable_spec hspares hrow huser hmanager
    exact .inr ⟨o, delete_keeps hmembers horow hne, hoteam, homanager, hstays⟩
  · exact .inl (delete_keeps hmembers hrow huser)

theorem delete_has_owner (h : w.Has isOwner teamId) : w'.Has isOwner teamId := by
  obtain ⟨m, hrow, hteam, howner⟩ := h
  rcases delete_other_owner hmembers hspares hrow howner with hkept | ⟨o, horow, hoteam, hoowner, -⟩
  · exact ⟨m, hkept, hteam, howner⟩
  · exact ⟨o, horow, hoteam.trans hteam, hoowner⟩

theorem delete_has_manager (h : w.Has canManageTeam teamId) :
    w'.Has canManageTeam teamId := by
  obtain ⟨m, hrow, hteam, hmanager⟩ := h
  rcases delete_other_manager hmembers hspares hrow hmanager with hkept | ⟨o, horow, hoteam, homanager, -⟩
  · exact ⟨m, hkept, hteam, hmanager⟩
  · exact ⟨o, horow, hoteam.trans hteam, homanager⟩

theorem delete_hasOther_owner {loses : Request → TeamMember → Bool} {target : TeamMember}
    (hget : w.calls[j]? = some c) (hknown : c.phase.ownersKnown) (htarget : c.target = some target)
    (hloses : loses c.request target) (hcase : loses = losesOwner ∨ loses = losesManager)
    (h : w.HasOther isOwner teamId target.id) :
    w'.HasOther isOwner teamId target.id := by
  obtain ⟨m, hrow, hteam, howner, hne⟩ := h
  rcases delete_other_owner hmembers hspares hrow howner with hkept | ⟨o, horow, hoteam, hoowner, hstays, hstays'⟩
  · exact ⟨m, hkept, hteam, howner, hne⟩
  · refine ⟨o, horow, hoteam.trans hteam, hoowner, ?_⟩
    rcases hcase with rfl | rfl
    · exact ne_of_outgoing hget hknown htarget hloses hstays'
    · exact ne_of_outgoing hget hknown htarget hloses hstays

theorem delete_guarded (hget : w.calls[j]? = some c) (h : c.Guarded w) : c.Guarded w' := by
  refine ⟨fun hphase t target huser hteam htarget hloses => ?_, fun hphase t target huser hteam htarget hloses => ?_,
    fun hphase t target hteam htarget hloses => ?_⟩
  · exact delete_hasOther_owner hmembers hspares hget hphase htarget hloses (.inl rfl)
      (h.owner hphase t target huser hteam htarget hloses)
  · obtain ⟨m, hrow, hmteam, hmanager, hne⟩ := h.manager hphase t target huser hteam htarget hloses
    rcases delete_other_manager hmembers hspares hrow hmanager with hkept | ⟨o, horow, hoteam, homanager, hstays⟩
    · exact ⟨m, hkept, hmteam, hmanager, hne⟩
    · refine ⟨o, horow, hoteam.trans hmteam, homanager, ?_⟩
      exact ne_of_outgoing hget (ownersKnown_of_managersKnown hphase) htarget hloses hstays
  · have hknown : c.phase.ownersKnown := by simp [hphase, ownersKnown]
    obtain ⟨howner, hother⟩ := h.counted hphase t target hteam htarget hloses
    exact ⟨fun hone => delete_has_owner hmembers hspares (howner hone), fun htwo =>
      delete_hasOther_owner hmembers hspares hget hknown htarget hloses (.inr rfl) (hother htwo)⟩

end Delete

/-! ### Runs -/

theorem World.Guarded.change (hw : w.Guarded) (hcalls : w'.calls = w.calls.set i call') (hmoved : call'.Guarded w')
    (hothers : ∀ (j : ℕ) (c : Call), j ≠ i → w.calls[j]? = some c → c.Guarded w → c.Guarded w') : w'.Guarded := by
  intro j c hj
  rw [hcalls, getElem?_set] at hj
  split_ifs at hj with hij hlt
  · cases hj
    exact hmoved
  · exact hothers j c (fun heq => hij heq.symm) hj (hw j c hj)

theorem World.Guarded.setCall (hw : w.Guarded) (hmoved : call'.Guarded w) : (w.setCall i call').Guarded :=
  hw.change rfl (hmoved.frame fun _ _ => .same rfl) fun _ _ _ _ h => h.frame fun _ _ => .same rfl

/-- The deletion of a user is one that its teams can do without. -/
def Sparing (w : World) (call : Call) : Prop :=
  ∀ userId, call.phase = .purging → call.request = .forceDelete userId → w.dispensable userId

/-- **One statement**: the counts hold. -/
theorem guarded_effect (hw : w.Consistent) (hguarded : w.Guarded) (hget : w.calls[i]? = some call)
    (hspares : Sparing w call) (h : Effect w i call w') : w'.Guarded := by
  have hcall := hguarded i call hget
  cases h with
  | idles => exact hguarded
  | leaves call' hrequest hphase hearly huser hactor htarget =>
    refine hguarded.setCall (guarded_of_unknown ?_)
    exact Bool.eq_false_iff.mpr fun hknown => absurd (holdsTeam_of_ownersKnown hknown) (by simp [hphase])
  | locks t hphase hteam hfree | knowsActor t userId actor hphase hteam hrequest hfind hcheck
  | knowsTarget t userId target hphase huser hteam hmember hfind hcheck =>
    exact hguarded.setCall (guarded_of_unknown rfl)
  | vacant user hphase huser =>
    -- an addition has no target
    have hsome : ∀ {q : Prop}, call.user = none → q := fun hnone => by
      rw [huser] at hnone
      cases hnone
    exact hguarded.setCall ⟨fun _ _ _ hnone => hsome hnone, fun _ _ _ hnone => hsome hnone, (fun h => nomatch h)⟩
  | ownersCounted t hphase hteam hcount =>
    refine hguarded.setCall ⟨fun _ t' target _ ht' _ _ => ?_, (fun h => nomatch h), (fun h => nomatch h)⟩
    obtain rfl : t = t' := some.inj (hteam.symm.trans ht')
    exact hasOther_of_count target.id hcount rfl
  | ownersOfManagers t hphase hteam =>
    refine hguarded.setCall ⟨fun _ t' target huser ht' htarget hloses => ?_, (fun h => nomatch h), fun _ t' target ht' _ _ => ?_⟩
    · rcases hphase with ⟨-, hnot⟩ | hp
      · rw [show call.target = some target from htarget] at hnot
        exact absurd hloses (by simpa using hnot)
      · exact hcall.owner (by simp [hp, ownersKnown]) t' target huser ht' htarget hloses
    · obtain rfl : t = t' := some.inj (hteam.symm.trans ht')
      exact ⟨fun hone => has_of_count hone rfl, fun htwo => hasOther_of_count target.id htwo rfl⟩
  | checked t hphase hteam hcount =>
    refine hguarded.setCall ⟨fun _ => hcall.owner (by simp [hphase, ownersKnown]),
      fun _ t' target _ ht' htarget hloses => ?_, (fun h => nomatch h)⟩
    obtain rfl : t = t' := some.inj (hteam.symm.trans ht')
    obtain ⟨howner, hother⟩ := hcall.counted hphase t target hteam htarget hloses
    exact hasOther_of_counts howner hother hcount
  | written t hphase hteam huser htarget =>
    refine hguarded.setCall ⟨fun _ t' target hnone ht' hsome hloses => ?_,
      fun _ t' target hnone ht' hsome hloses => ?_, (fun h => nomatch h)⟩
    · rcases hphase with ⟨-, hnot, -⟩ | ⟨hp, -⟩ | hp
      · rw [show call.target = some target from hsome] at hnot
        exact absurd hloses (by simpa using hnot)
      all_goals exact hcall.owner (by simp [hp, ownersKnown]) t' target hnone ht' hsome hloses
    · rcases hphase with ⟨-, -, hnot⟩ | ⟨-, hnot⟩ | hp
      · rw [show call.target = some target from hsome] at hnot
        exact absurd hloses (by simpa using hnot)
      · rw [show call.target = some target from hsome] at hnot
        exact absurd hloses (by simpa using hnot)
      · exact hcall.manager (by simp [hp, managersKnown]) t' target hnone ht' hsome hloses
  | confirmed hphase =>
    exact hguarded.setCall ⟨fun _ => hcall.owner (by simp [hphase, ownersKnown]),
      fun _ => hcall.manager (by simp [hphase, managersKnown]), (fun h => nomatch h)⟩
  | commits t hphase hteam =>
    have hsound := hw.each i call hget
    have hwritten : call.phase.isWritten := by rcases hphase with hp | hp <;> simp [hp, isWritten]
    refine hguarded.change rfl (guarded_of_unknown rfl) fun j c hji hj hc => hc.frame fun t' ht' => ?_
    refine commit_retains hsound hwritten hteam (applyWrite_cases hsound) rfl fun heq => hji ?_
    exact hw.exclusive j i c call t' hj hget ht' (holds_iff.mpr ⟨holdsTeam_of_isWritten hwritten, heq ▸ hteam⟩)
  | deletes userId hphase hrequest hfree =>
    refine hguarded.change rfl (guarded_of_unknown rfl) fun j c _ hj hc => ?_
    exact delete_guarded rfl (hspares userId hphase hrequest) hj hc

/-- **One statement**: owners and managers remain. -/
theorem has_effect (hw : w.Consistent) (hguarded : w.Guarded) (hget : w.calls[i]? = some call)
    (hspares : Sparing w call) (h : Effect w i call w') (t : ℕ) :
    (w.Has isOwner t → w'.Has isOwner t) ∧ (w.Has canManageTeam t → w'.Has canManageTeam t) := by
  have hsame : ∀ {w' : World}, w'.members = w.members → (w.Has isOwner t → w'.Has isOwner t) ∧
        (w.Has canManageTeam t → w'.Has canManageTeam t) := fun hmembers =>
    ⟨fun hhas => hhas.retained (fun _ => canManageTeam_of_isOwner) (.same hmembers),
      fun hhas => hhas.retained (fun _ hrole => hrole) (.same hmembers)⟩
  have hcall := hguarded i call hget
  cases h with
  | commits t' hphase hteam =>
    have hsound := hw.each i call hget
    have hwritten : call.phase.isWritten := by rcases hphase with hp | hp <;> simp [hp, isWritten]
    have hknown : call.phase.managersKnown := by rcases hphase with hp | hp <;> simp [hp, managersKnown]
    have hwrite : Write w call t' (applyWrite w.members call t') := applyWrite_cases hsound
    by_cases heq : t = t'
    · subst heq
      constructor
      · refine commit_has hsound hwritten hteam hwrite rfl fun target huser htarget hrole hnew => ?_
        exact hcall.owner (ownersKnown_of_managersKnown hknown) t target huser hteam htarget (by simp [losesOwner, hrole, hnew])
      · refine commit_has hsound hwritten hteam hwrite rfl fun target huser htarget hrole hnew => ?_
        exact hcall.manager hknown t target huser hteam htarget (by simp [losesManager, hrole, hnew])
    · have hretains : Retains w (commitWrite w i call t') t := commit_retains hsound hwritten hteam hwrite rfl heq
      exact ⟨fun hhas => hhas.retained (fun _ => canManageTeam_of_isOwner) hretains,
        fun hhas => hhas.retained (fun _ hrole => hrole) hretains⟩
  | deletes userId hphase hrequest hfree =>
    have hdispensable := hspares userId hphase hrequest
    exact ⟨delete_has_owner rfl hdispensable, delete_has_manager rfl hdispensable⟩
  | _ => exact hsame rfl

theorem spares_sparing {l : Label} (h : Spares w l) (hl : l = .next i) (hget : w.calls[i]? = some call) :
    Sparing w call := by
  intro userId hphase hrequest
  subst hl
  obtain ⟨request, phase, user, actorMember, target, ownerCount⟩ := call
  obtain rfl : phase = .purging := hphase
  obtain rfl : request = .forceDelete userId := hrequest
  simpa only [Spares, hget] using h

theorem guarded_step {l : Label} (hw : w.Consistent) (hguarded : w.Guarded) (hspares : Spares w l)
    (h : step w l = some w') : w'.Guarded := by
  rcases step_effect h with ⟨_, _, _, _, -, rfl⟩ | ⟨request, -, rfl⟩ | ⟨i, call, hl, hget, heffect⟩ |
    ⟨i, call, error, -, hget, rfl⟩
  · exact fun j c hj => (hguarded j c hj).frame fun _ _ => .same rfl
  · intro j c hj
    rcases get_start hj with hold | rfl
    · exact (hguarded j c hold).frame fun _ _ => .same rfl
    · exact guarded_of_unknown rfl
  · exact guarded_effect hw hguarded hget (spares_sparing hspares hl hget) heffect
  · exact hguarded.setCall (guarded_of_unknown rfl)

theorem guarded_of_reach (h₀ : w₀.Idle) (h : membership.Reach Spares w₀ w) : w.Guarded :=
  h.strengthen (I := World.Guarded) (J := World.Consistent) (fun hr => consistent_of_reach h₀ hr)
    (fun j c hj => by simp [h₀.calls] at hj) fun hg hc _ hspares hstep => guarded_step hc hg hspares hstep

theorem has_step {l : Label} (hw : w.Consistent) (hguarded : w.Guarded) (hspares : Spares w l)
    (h : step w l = some w') (t : ℕ) :
    (w.Has isOwner t → w'.Has isOwner t) ∧ (w.Has canManageTeam t → w'.Has canManageTeam t) := by
  rcases step_effect h with ⟨_, _, _, _, -, rfl⟩ | ⟨request, -, rfl⟩ | ⟨i, call, hl, hget, heffect⟩ |
    ⟨i, call, error, -, hget, rfl⟩
  · exact ⟨fun hhas => hhas, fun hhas => hhas⟩
  · exact ⟨fun hhas => hhas, fun hhas => hhas⟩
  · exact has_effect hw hguarded hget (spares_sparing hspares hl hget) heffect t
  · exact ⟨fun hhas => hhas, fun hhas => hhas⟩

/-- **Every run.** -/
theorem has_of_reach (h₀ : w₀.Idle) (hw : membership.Reach Spares w₀ w) (h : membership.Reach Spares w w') (t : ℕ) :
    (w.HasOwner t → w'.HasOwner t) ∧ (w.HasManager t → w'.HasManager t) := by
  rw [hasOwner_iff, hasOwner_iff, hasManager_iff, hasManager_iff]
  induction h with
  | refl => exact ⟨fun hhas => hhas, fun hhas => hhas⟩
  | step hs hspares hstep ih =>
    have hreach := hw.trans hs
    obtain ⟨howner, hmanager⟩ := has_step (consistent_of_reach h₀ hreach) (guarded_of_reach h₀ hreach) hspares hstep t
    exact ⟨fun hhas => howner (ih.1 hhas), fun hhas => hmanager (ih.2 hhas)⟩

/-! ### Who may change an owner -/

theorem owner_of_addition {request : Request} {actor : TeamMember} {input : AddTeamMemberInput} {userId : ℕ}
    (hcheck : checkActor request actor = .ok ()) (hadd : request.addition = some input)
    (hactor : request.actor = some userId) (howner : input.role.isOwner) : actor.role.isOwner := by
  cases request with
  | addMember _ _ input' =>
    obtain rfl : input' = input := some.inj hadd
    simp only [checkActor] at hcheck
    split at hcheck
    · cases hcheck
    · split_ifs at hcheck with hrefused
      by_contra hnot
      exact hrefused (by simp [hnot, howner])
  | addAdminMember _ _ => cases hactor
  | updateMemberRole _ _ _ _ | updateAdminMemberRole _ _ _ | removeMember _ _ _ | removeAdminMember _ _
  | forceDelete _ => cases hadd

theorem owner_of_update {request : Request} {actor target : TeamMember} {role : TeamMemberRole} {userId : ℕ}
    (hcheck : checkActorOnTarget request actor target = .ok ()) (hrole : request.newRole = some role)
    (hactor : request.actor = some userId) (howner : target.role.isOwner ∨ role.isOwner) : actor.role.isOwner := by
  cases request with
  | updateMemberRole _ _ _ role' =>
    obtain rfl : role' = role := some.inj hrole
    simp only [checkActorOnTarget] at hcheck
    split_ifs at hcheck with hrefused
    by_contra hnot
    exact hrefused (by simpa [hnot] using howner)
  | addMember _ _ _ | removeMember _ _ _ | removeAdminMember _ _ | forceDelete _ => cases hrole
  | addAdminMember _ _ | updateAdminMemberRole _ _ _ => cases hactor

theorem owner_of_removal {request : Request} {actor target : TeamMember} {userId memberUserId : ℕ}
    (hcheck : checkActorOnTarget request actor target = .ok ()) (hrole : request.newRole = none)
    (hactor : request.actor = some userId) (hmember : request.memberUser = some memberUserId)
    (howner : target.role.isOwner) : userId = memberUserId ∨ actor.role.isOwner := by
  cases request with
  | removeMember _ userId' memberUserId' =>
    obtain rfl : userId' = userId := some.inj hactor
    obtain rfl : memberUserId' = memberUserId := some.inj hmember
    by_cases hself : userId' = memberUserId'
    · exact .inl hself
    · simp only [checkActorOnTarget, ne_eq, hself, not_false_eq_true, if_true] at hcheck
      split at hcheck
      · cases hcheck
      · split_ifs at hcheck with hrefused
        by_contra hnot
        exact hrefused (by simpa [howner] using fun h => hnot (.inr h))
  | addMember _ _ _ => cases hmember
  | addAdminMember _ _ | updateAdminMemberRole _ _ _ | removeAdminMember _ _ | forceDelete _ => cases hactor
  | updateMemberRole _ _ _ _ => cases hrole

section Permission

variable (hw : w.Consistent) (hcall : call.Sound w) (hphase : call.phase.isWritten)
variable (hteam : call.request.team = some teamId) {members : SerialTable TeamMember.id} {m actor : TeamMember}
variable (hactor : call.actorMember = some actor) (howner : m.role.isOwner)
variable (hchange : ¬ (m ∈ members.rows ↔ m ∈ w.members.rows))
include hw hcall hphase hteam hactor howner hchange

/-- The row of an owner that a commit adds or takes away is one of the team, and the actor is an owner of it. -/
theorem owner_of_change (h : Write w call teamId members) : m.teamId = teamId ∧ actor.role.isOwner := by
  have hheld := holdsTeam_of_isWritten hphase
  obtain ⟨hrequest, hactorTeam, hstands, hcheck⟩ := hcall.actor hheld actor hactor
  cases h with
  | insert user input huser hadd =>
    rw [mem_insert] at hchange
    have hnew : m = ⟨w.members.next, teamId, user.id, input.role⟩ := by
      by_contra hnot
      exact hchange ⟨fun hor => hor.resolve_right hnot, .inl⟩
    subst hnew
    exact ⟨rfl, owner_of_addition hcheck hadd hrequest howner⟩
  | update target role huser htarget hrole =>
    have hrow := hcall.changes hphase huser target htarget
    obtain ⟨-, htargetTeam, -, htargetCheck⟩ := hcall.target hheld target htarget
    have hid : target.teamId = teamId := some.inj (htargetTeam.symm.trans hteam)
    -- the row is the target's, before or afterwards
    have hcases : m = target ∨ m = { target with role := role } := by
      by_contra hnot
      push Not at hnot
      refine hchange ⟨fun hm => ?_, fun hm => ?_⟩
      · obtain ⟨r, hr, rfl⟩ := mem_updateRows.mp hm
        split_ifs at hnot ⊢ with hsame
        · obtain rfl : r = target := Table.eq_of_key hr hrow (by simpa using hsame)
          exact absurd rfl hnot.2
        · exact hr
      · refine mem_updateRows.mpr ⟨m, hm, if_neg ?_⟩
        intro hsame
        exact hnot.1 (Table.eq_of_key hm hrow (by simpa using hsame))
    have hallowed : target.role.isOwner ∨ role.isOwner → actor.role.isOwner :=
      owner_of_update (htargetCheck actor hactor) hrole hrequest
    rcases hcases with rfl | rfl
    · exact ⟨hid, hallowed (.inl howner)⟩
    · exact ⟨hid, hallowed (.inr howner)⟩
  | delete target huser htarget hrole =>
    have hrow := hcall.changes hphase huser target htarget
    obtain ⟨hmember, htargetTeam, -, htargetCheck⟩ := hcall.target hheld target htarget
    have hid : target.teamId = teamId := some.inj (htargetTeam.symm.trans hteam)
    have hm : m = target := by
      by_contra hnot
      refine hchange ⟨fun hm => (mem_deleteRows.mp hm).1, fun hm => ?_⟩
      exact mem_deleteRows.mpr ⟨hm, decide_eq_false fun hsame => hnot (Table.eq_of_key hm hrow hsame)⟩
    subst hm
    refine ⟨hid, ?_⟩
    rcases owner_of_removal (htargetCheck actor hactor) hrole hrequest hmember howner with hself | hisOwner
    · -- who removes itself is the target, unless it is gone with its user
      rcases hstands with hactorRow | ⟨-, -, hgone, -⟩
      · have hsameTeam : actor.teamId = m.teamId := some.inj (hactorTeam.symm.trans htargetTeam)
        rw [hw.unique actor hactorRow m hrow hsameTeam hself]
        exact howner
      · rw [hself] at hgone
        exact absurd hgone (hw.users m hrow)
    · exact hisOwner
  | nothing _ _ => exact absurd Iff.rfl hchange

end Permission

theorem effect_members (h : Effect w i call w') (hrequest : call.request.actor.isSome) :
    w'.members = w.members ∨ ∃ teamId, call.phase.isWritten ∧ call.request.team = some teamId ∧
      w' = commitWrite w i call teamId := by
  cases h with
  | commits teamId hphase hteam =>
    exact .inr ⟨teamId, by rcases hphase with hp | hp <;> simp [hp, isWritten], hteam, rfl⟩
  | deletes userId hphase hdelete hfree => simp [hdelete, Request.actor] at hrequest
  | _ => exact .inl rfl

/-- **Permission.** -/
theorem owner_of_step {userId : ℕ} {m : TeamMember} (hw : w.Consistent) (hget : w.calls[i]? = some call)
    (h : step w (.next i) = some w') (hactor : call.request.actor = some userId) (howner : m.role.isOwner)
    (hchange : ¬ (m ∈ w'.members.rows ↔ m ∈ w.members.rows)) :
    ∃ actor, call.actorMember = some actor ∧ actor.userId = userId ∧ actor.teamId = m.teamId ∧ actor.role.isOwner ∧
      (actor ∈ w.members.rows ∨ w.users.get userId = none) := by
  obtain ⟨call', hget', hnext⟩ := bind_eq_some_iff.mp h
  obtain rfl : call = call' := some.inj (hget.symm.trans hget')
  have hsound := hw.each i call hget
  rcases effect_members (next_effect hnext) (by simp [hactor]) with hsame | ⟨teamId, hphase, hteam, rfl⟩
  · exact absurd (by rw [hsame]) hchange
  have hheld := holdsTeam_of_isWritten hphase
  have hnot : call.phase ≠ .locked := by
    intro hlocked
    simp [hlocked, isWritten] at hphase
  obtain ⟨actor, hactorMember⟩ := isSome_iff_exists.mp (hsound.known hheld hnot (by simp [hactor]))
  obtain ⟨hrequest, hactorTeam, hstands, -⟩ := hsound.actor hheld actor hactorMember
  have hself : actor.userId = userId := some.inj (hrequest.symm.trans hactor)
  obtain ⟨hmTeam, hactorOwner⟩ :=
    owner_of_change hw hsound hphase hteam hactorMember howner hchange (applyWrite_cases hsound)
  refine ⟨actor, hactorMember, hself, ?_, hactorOwner, ?_⟩
  · exact (some.inj (hactorTeam.symm.trans hteam)).trans hmTeam.symm
  · rcases hstands with hrow | ⟨-, -, hgone, -⟩
    · exact .inl hrow
    · exact .inr (hself ▸ hgone)

/-! ### The last owner -/

/-- If users are deleted only when their teams can do without them, a team keeps an owner and a manager. In any run a user
has one membership in a team at most, and a call of a member gives or takes the role of an owner only if the member is an
owner. -/
theorem team_keeps_owner (h₀ : w₀.Idle) :
    (∀ {w w'}, membership.Reach Spares w₀ w → membership.Reach Spares w w' → ∀ teamId,
      (w.HasOwner teamId → w'.HasOwner teamId) ∧ (w.HasManager teamId → w'.HasManager teamId)) ∧
    ∀ {w}, membership.Reach Lts.free w₀ w →
      (∀ m ∈ w.members.rows, ∀ m' ∈ w.members.rows, m.teamId = m'.teamId → m.userId = m'.userId → m = m') ∧
      ∀ {w' i call userId m}, w.calls[i]? = some call → step w (.next i) = some w' → call.request.actor = some userId →
        m.role.isOwner → ¬ (m ∈ w'.members.rows ↔ m ∈ w.members.rows) →
        ∃ actor, call.actorMember = some actor ∧ actor.userId = userId ∧ actor.teamId = m.teamId ∧ actor.role.isOwner ∧
          (actor ∈ w.members.rows ∨ w.users.get userId = none) := by
  refine ⟨fun hw h teamId => has_of_reach h₀ hw h teamId, fun hw => ?_⟩
  have hconsistent := consistent_of_reach h₀ hw
  exact ⟨hconsistent.unique, fun hget hstep hactor howner hchange =>
    owner_of_step hconsistent hget hstep hactor howner hchange⟩

/-! ### Two owners, and one -/

def withUser (users : SerialTable User.id) (username : String) (isAdmin : Bool) : SerialTable User.id :=
  users.insert (fun id => ⟨id, username, username ++ "@example.org", true, isAdmin⟩) fun _ => rfl

def withMember (members : SerialTable TeamMember.id) (userId : ℕ) (role : TeamMemberRole) : SerialTable TeamMember.id :=
  members.insert (fun id => ⟨id, 1, userId, role⟩) fun _ => rfl

/-- Users 2 and 3 own the team, user 4 is an admin of it. -/
def twoOwners : World where
  users := withUser (withUser (withUser (withUser .empty "root" true) "anna" false) "ben" false) "cara" false
  members := withMember (withMember (withMember .empty 2 .owner) 3 .owner) 4 .admin
  teams := [1]
  calls := []

theorem twoOwners_idle : twoOwners.Idle := ⟨rfl, by decide, by decide⟩

/-- User 3 removes user 2, which wants to make user 3 a member meanwhile; then user 4 is deleted. -/
def eachOther : List Label :=
  [.start (.removeMember 1 3 2), .start (.updateMemberRole 1 2 3 .member), .start (.forceDelete 4)] ++
    List.replicate 8 (.next 0) ++ List.replicate 2 (.next 1) ++ List.replicate 2 (.next 2)

theorem eachOther_runs : (membership.run Spares eachOther twoOwners).map
    (fun w => (w.calls.map Call.phase, w.members.rows)) =
      some ([.done, .failed notTeamMemberError, .done], [⟨2, 1, 3, .owner⟩]) := by
  decide

theorem team_keeps_owner_eachOther : ∃ w, membership.Reach Spares twoOwners w ∧
    w.members.rows = [⟨2, 1, 3, .owner⟩] ∧ w.HasOwner 1 ∧ w.HasManager 1 := by
  obtain ⟨w, hrun, hends⟩ := map_eq_some_iff.mp eachOther_runs
  have hreach := Lts.reach_of_run hrun
  obtain ⟨howner, hmanager⟩ := (team_keeps_owner twoOwners_idle).1 .refl hreach 1
  exact ⟨w, hreach, (Prod.mk.inj hends).2, howner ⟨⟨1, 1, 2, .owner⟩, by decide, rfl⟩, hmanager (show twoOwners.managers 1 ≠ [] by decide)⟩

def oneOwner : World where
  users := withUser (withUser (withUser .empty "root" true) "anna" false) "ben" false
  members := withMember (withMember .empty 2 .owner) 3 .member
  teams := [1]
  calls := []

theorem oneOwner_idle : oneOwner.Idle := ⟨rfl, by decide, by decide⟩

theorem deletion_runs : (membership.run Lts.free [.start (.forceDelete 2), .next 0, .next 0] oneOwner).map
      (fun w => (w.calls.map Call.phase, w.members.rows)) = some ([.done], [⟨2, 1, 3, .member⟩]) := by
  decide

/-- The user that is deleted is the owner of the team. -/
theorem owner_deleted : oneOwner.Idle ∧ oneOwner.HasOwner 1 ∧
    ∃ w, membership.Reach Lts.free oneOwner w ∧ w.calls.map Call.phase = [.done] ∧ ¬ w.HasOwner 1 ∧ ¬ w.HasManager 1 := by
  obtain ⟨w, hrun, hphases, hrows⟩ := map_pair_eq_some deletion_runs
  have hmanagers : w.managers 1 = [] := by
    unfold World.managers
    rw [hrows]
    rfl
  refine ⟨oneOwner_idle, ⟨⟨1, 1, 2, .owner⟩, by decide, rfl⟩, w, Lts.reach_of_run hrun, hphases, ?_, fun h => h hmanagers⟩
  rintro ⟨m, hm, -⟩
  simp [hmanagers] at hm

end AsterDrive.Workspace.TeamMembers
