import AsterDrive.Lib.Census
import AsterDrive.Workspace.TeamMembers

/-!
# Workspace.TeamLocks — what a call knows under the lock of its team

The row of the team makes the calls on a team take turns. What a call has read of the members of its team still holds when
it commits, but for the memberships that went with their users (`Stands`); so no user gets two memberships in a team.
-/

namespace AsterDrive.Workspace.TeamMembers

open List Option SerialTable Phase

variable {w w' w0 : World} {i j teamId : ℕ} {call call' c : Call}

/-! ### What a statement does -/

/-- Nothing of the team is read yet. -/
def Phase.early : Phase → Bool
  | .ready | .resolved | .locked => true
  | _ => false

/-- The effect of the next statement of call `i`. -/
inductive Effect (w : World) (i : ℕ) (call : Call) : World → Prop
  | idles : Effect w i call w
  | leaves (call' : Call) (hrequest : call'.request = call.request) (hphase : call'.phase.holdsTeam = false)
      (hearly : call'.phase.early → call.phase = .ready)
      (huser : call'.user = call.user ∨ (call.phase = .ready ∧ call.request.addition.isSome))
      (hactor : call'.actorMember = call.actorMember) (htarget : call'.target = call.target) :
      Effect w i call (w.setCall i call')
  | locks (teamId : ℕ) (hphase : call.phase = .ready ∨ call.phase = .resolved) (hteam : call.request.team = some teamId)
      (hfree : w.teamFree teamId) : Effect w i call (w.setCall i { call with phase := .locked })
  | knowsActor (teamId userId : ℕ) (actor : TeamMember) (hphase : call.phase = .locked)
      (hteam : call.request.team = some teamId) (hactor : call.request.actor = some userId)
      (hfind : findByTeamAndUser w teamId userId = some actor) (hcheck : checkActor call.request actor = .ok ()) :
      Effect w i call (w.setCall i { call with phase := .actorKnown, actorMember := some actor })
  | knowsTarget (teamId userId : ℕ) (target : TeamMember)
      (hphase : (call.phase = .locked ∧ call.request.actor = none) ∨ call.phase = .actorKnown)
      (huser : call.user = none) (hteam : call.request.team = some teamId) (hmember : call.request.memberUser = some userId)
      (hfind : findByTeamAndUser w teamId userId = some target)
      (hcheck : ∀ actor, call.actorMember = some actor → checkActorOnTarget call.request actor target = .ok ()) :
      Effect w i call (w.setCall i { call with phase := .targetKnown, target := some target })
  | vacant (user : User) (hphase : (call.phase = .locked ∧ call.request.actor = none) ∨ call.phase = .actorKnown)
      (huser : call.user = some user) : Effect w i call (w.setCall i { call with phase := .checked })
  | ownersCounted (teamId : ℕ) (hphase : call.phase = .targetKnown) (hteam : call.request.team = some teamId)
      (hcount : 2 ≤ countByTeamAndRole w teamId .owner) :
      Effect w i call (w.setCall i { call with phase := .ownersCounted })
  | ownersOfManagers (teamId : ℕ)
      (hphase : (call.phase = .targetKnown ∧ call.target.any (losesOwner call.request) = false) ∨
        call.phase = .ownersCounted)
      (hteam : call.request.team = some teamId) : Effect w i call
        (w.setCall i { call with phase := .ownersOfManagers, ownerCount := countByTeamAndRole w teamId .owner })
  | checked (teamId : ℕ) (hphase : call.phase = .ownersOfManagers) (hteam : call.request.team = some teamId)
      (hcount : 2 ≤ call.ownerCount + countByTeamAndRole w teamId .admin) :
      Effect w i call (w.setCall i { call with phase := .checked })
  | written (teamId : ℕ) (hphase : (call.phase = .targetKnown ∧ call.target.any (losesOwner call.request) = false ∧
          call.target.any (losesManager call.request) = false) ∨
        (call.phase = .ownersCounted ∧ call.target.any (losesManager call.request) = false) ∨ call.phase = .checked)
      (hteam : call.request.team = some teamId)
      (huser : ∀ user, call.user = some user → findByTeamAndUser w teamId user.id = none ∧ w.users.get user.id ≠ none)
      (htarget : call.user = none → ∀ target, call.target = some target → w.members.get target.id ≠ none) :
      Effect w i call (w.setCall i { call with phase := .written })
  | confirmed (hphase : call.phase = .written) : Effect w i call (w.setCall i { call with phase := .confirmed })
  | commits (teamId : ℕ) (hphase : call.phase = .written ∨ call.phase = .confirmed)
      (hteam : call.request.team = some teamId) : Effect w i call (commitWrite w i call teamId)
  | deletes (userId : ℕ) (hphase : call.phase = .purging) (hrequest : call.request = .forceDelete userId)
      (hfree : ∀ other ∈ w.calls, other.writes ≠ some userId) :
      Effect w i call { w.setCall i { call with phase := .done } with
        users := w.users.deleteRows fun user => user.id = userId
        members := w.members.deleteRows fun m => m.userId = userId }

theorem Effect.fails (error : AsterError) : Effect w i call (w.setCall i { call with phase := .failed error }) :=
  .leaves _ rfl rfl (fun h => by cases h) (.inl rfl) rfl rfl

theorem lockTeam_effect (hphase : call.phase = .ready ∨ call.phase = .resolved) (hteam : call.request.team = some teamId)
    (h : lockTeam w i call teamId = some w') : Effect w i call w' := by
  unfold lockTeam at h
  split_ifs at h with hfree hactive
  · cases h
    exact .locks teamId hphase hteam (by simpa using hfree)
  · cases h
    exact .fails _

theorem resolve_effect {input : AddTeamMemberInput} (hphase : call.phase = .ready)
    (hadd : call.request.addition = some input) : Effect w i call (resolve w i call input) := by
  unfold resolve
  split
  · exact .fails _
  · split_ifs
    · exact .fails _
    · exact .leaves _ rfl rfl (fun _ => hphase) (.inr ⟨hphase, by simp [hadd]⟩) rfl rfl

theorem readActor_effect {userId : ℕ} (hphase : call.phase = .locked) (hteam : call.request.team = some teamId)
    (hactor : call.request.actor = some userId) : Effect w i call (readActor w i call teamId userId) := by
  unfold readActor
  split
  · exact .fails _
  · rename_i actor hfind
    split
    · exact .fails _
    · rename_i hcheck
      exact .knowsActor teamId userId actor hphase hteam hactor hfind hcheck

theorem readTarget_effect (hphase : (call.phase = .locked ∧ call.request.actor = none) ∨ call.phase = .actorKnown)
    (hteam : call.request.team = some teamId) : Effect w i call (readTarget w i call teamId) := by
  unfold readTarget
  split
  · rename_i user huser
    split
    · exact .fails _
    · exact .vacant user hphase huser
  · rename_i memberUserId huser hmember
    split
    · exact .fails _
    · rename_i target hfind
      split
      · rename_i hnone
        refine .knowsTarget teamId memberUserId target hphase huser hteam hmember hfind fun actor hactor => ?_
        rw [hnone] at hactor
        cases hactor
      · rename_i actor hactor
        split
        · exact .fails _
        · rename_i hcheck
          refine .knowsTarget teamId memberUserId target hphase huser hteam hmember hfind fun actor' hactor' => ?_
          obtain rfl := some.inj (hactor.symm.trans hactor')
          exact hcheck
  · exact .idles

theorem countOwners_effect (hphase : call.phase = .targetKnown) (hteam : call.request.team = some teamId) :
    Effect w i call (countOwners w i call teamId) := by
  unfold countOwners ensureNotLastOwner
  split
  · exact .fails _
  · rename_i hensure
    split_ifs at hensure with hlast
    exact .ownersCounted teamId hphase hteam (by omega)

theorem countAdmins_effect (hphase : call.phase = .ownersOfManagers) (hteam : call.request.team = some teamId) :
    Effect w i call (countAdmins w i call teamId) := by
  unfold countAdmins ensureNotLastManager
  split
  · exact .fails _
  · rename_i hensure
    split_ifs at hensure with hlast
    exact .checked teamId hphase hteam (by omega)

theorem write_effect (hphase : (call.phase = .targetKnown ∧ call.target.any (losesOwner call.request) = false ∧
        call.target.any (losesManager call.request) = false) ∨
      (call.phase = .ownersCounted ∧ call.target.any (losesManager call.request) = false) ∨ call.phase = .checked)
    (hteam : call.request.team = some teamId) : Effect w i call (write w i call teamId) := by
  unfold write
  split
  · rename_i user _ huser
    unfold insertMember
    split_ifs with hfound hgone
    · exact .fails _
    · exact .fails _
    · refine .written teamId hphase hteam (fun user' huser' => ?_) fun hnone => ?_
      · obtain rfl := some.inj (huser.symm.trans huser')
        exact ⟨by simpa using hfound, by simpa using hgone⟩
      · rw [huser] at hnone
        cases hnone
  · rename_i target huser htarget
    unfold changeMember
    split
    · exact .fails _
    · rename_i row hget
      refine .written teamId hphase hteam (fun user' huser' => ?_) fun _ target' htarget' => ?_
      · rw [huser] at huser'
        cases huser'
      · obtain rfl := some.inj (htarget.symm.trans htarget')
        simp [hget]
  · exact .idles

theorem nextOnTeam_effect (hteam : call.request.team = some teamId) (h : nextOnTeam w i call teamId = some w') :
    Effect w i call w' := by
  unfold nextOnTeam at h
  split at h
  · rename_i hphase
    split at h
    · rename_i input hadd
      cases h
      exact resolve_effect hphase hadd
    · exact lockTeam_effect (.inl hphase) hteam h
  · rename_i hphase
    exact lockTeam_effect (.inr hphase) hteam h
  · rename_i hphase
    split at h
    · rename_i hactor
      cases h
      exact readActor_effect hphase hteam hactor
    · rename_i hactor
      cases h
      exact readTarget_effect (.inl ⟨hphase, hactor⟩) hteam
  · rename_i hphase
    cases h
    exact readTarget_effect (.inr hphase) hteam
  · rename_i hphase
    split_ifs at h with howner hmanager
    · cases h
      exact countOwners_effect hphase hteam
    · cases h
      exact .ownersOfManagers teamId (.inl ⟨hphase, by simpa using howner⟩) hteam
    · cases h
      exact write_effect (.inl ⟨hphase, by simpa using howner, by simpa using hmanager⟩) hteam
  · rename_i hphase
    split_ifs at h with hmanager
    · cases h
      exact .ownersOfManagers teamId (.inr hphase) hteam
    · cases h
      exact write_effect (.inr (.inl ⟨hphase, by simpa using hmanager⟩)) hteam
  · rename_i hphase
    cases h
    exact countAdmins_effect hphase hteam
  · rename_i hphase
    cases h
    exact write_effect (.inr (.inr hphase)) hteam
  · rename_i hphase
    split at h
    · cases h
      unfold readUpdatedUser
      split
      · exact .fails _
      · exact .confirmed hphase
    · cases h
      exact .commits teamId (.inl hphase) hteam
  · rename_i hphase
    cases h
    exact .commits teamId (.inr hphase) hteam
  all_goals cases h

theorem nextOfDelete_effect {userId : ℕ} (hrequest : call.request = .forceDelete userId)
    (h : nextOfDelete w i call userId = some w') : Effect w i call w' := by
  unfold nextOfDelete at h
  split at h
  · cases h
    unfold beginDelete
    split
    · exact .fails _
    · split_ifs
      · exact .fails _
      · exact .fails _
      · exact .leaves _ rfl rfl (fun h => by cases h) (.inl rfl) rfl rfl
  · rename_i hphase
    unfold deleteUser at h
    split_ifs at h with hwritten
    split at h
    · cases h
      exact .fails _
    · cases h
      refine .deletes userId hphase hrequest fun other hother hwrites => hwritten ?_
      exact List.any_eq_true.mpr ⟨other, hother, decide_eq_true hwrites⟩
  · cases h

/-- **Inversion.** -/
theorem next_effect (h : next w i call = some w') : Effect w i call w' := by
  unfold next at h
  cases hrequest : call.request with
  | forceDelete userId =>
    simp only [hrequest] at h
    exact nextOfDelete_effect hrequest h
  | _ =>
    simp only [hrequest, Request.team] at h
    exact nextOnTeam_effect (by rw [hrequest]; rfl) h

/-! ### What a call knows -/

/-- The row is there, or it is gone for good together with its user. -/
def Stands (w : World) (m : TeamMember) : Prop :=
  m ∈ w.members.rows ∨
    (w.members.get m.id = none ∧ m.id < w.members.next ∧ w.users.get m.userId = none ∧ m.userId < w.users.next)

def Phase.isWritten : Phase → Bool
  | .written | .confirmed => true
  | _ => false

structure Call.Sound (w : World) (call : Call) : Prop where
  user : call.user.isSome → call.request.addition.isSome
  apart : call.user.isSome → call.target = none
  early : call.phase.early → call.actorMember = none ∧ call.target = none
  known : call.phase.holdsTeam → call.phase ≠ .locked → call.request.actor.isSome → call.actorMember.isSome
  actor : call.phase.holdsTeam → ∀ actor, call.actorMember = some actor →
    call.request.actor = some actor.userId ∧ call.request.team = some actor.teamId ∧ Stands w actor ∧
      checkActor call.request actor = .ok ()
  target : call.phase.holdsTeam → ∀ target, call.target = some target →
    call.request.memberUser = some target.userId ∧ call.request.team = some target.teamId ∧ Stands w target ∧
      ∀ actor, call.actorMember = some actor → checkActorOnTarget call.request actor target = .ok ()
  inserts : call.phase.isWritten → ∀ user teamId, call.user = some user → call.request.team = some teamId →
    findByTeamAndUser w teamId user.id = none ∧ w.users.get user.id ≠ none
  changes : call.phase.isWritten → call.user = none → ∀ target, call.target = some target → target ∈ w.members.rows

structure World.Consistent (w : World) : Prop where
  users : ∀ m ∈ w.members.rows, w.users.get m.userId ≠ none
  unique : ∀ m ∈ w.members.rows, ∀ m' ∈ w.members.rows, m.teamId = m'.teamId → m.userId = m'.userId → m = m'
  exclusive : ∀ (j k : ℕ) (c d : Call) (teamId : ℕ), w.calls[j]? = some c → w.calls[k]? = some d → c.holds teamId →
    d.holds teamId → j = k
  each : ∀ (j : ℕ) (c : Call), w.calls[j]? = some c → c.Sound w

theorem holds_iff : call.holds teamId ↔ call.phase.holdsTeam ∧ call.request.team = some teamId := by
  simp [Call.holds]

theorem holdsTeam_of_isWritten {phase : Phase} (h : phase.isWritten) : phase.holdsTeam := by
  cases phase <;> simp_all [isWritten, holdsTeam]

theorem find_some {userId : ℕ} {m : TeamMember} (h : findByTeamAndUser w teamId userId = some m) :
    m ∈ w.members.rows ∧ m.teamId = teamId ∧ m.userId = userId := by
  have hmatch := find?_some h
  exact ⟨mem_of_find?_eq_some h, (of_decide_eq_true hmatch).1, (of_decide_eq_true hmatch).2⟩

theorem find_none {userId : ℕ} :
    findByTeamAndUser w teamId userId = none ↔ ∀ m ∈ w.members.rows, m.teamId = teamId → m.userId ≠ userId := by
  simp [findByTeamAndUser]

/-- What a call that holds a team needs of a change that is made beside it. -/
structure Keeps (w w' : World) (c : Call) (teamId : ℕ) : Prop where
  stands : ∀ m, m.teamId = teamId → Stands w m → Stands w' m
  vacant : ∀ userId, findByTeamAndUser w teamId userId = none → findByTeamAndUser w' teamId userId = none
  user : ∀ userId, c.writes = some userId → w.users.get userId ≠ none → w'.users.get userId ≠ none
  row : ∀ m, m.teamId = teamId → c.writes = some m.userId → m ∈ w.members.rows → m ∈ w'.members.rows

theorem writes_user {user : User} (hphase : call.phase.isWritten) (huser : call.user = some user) :
    call.writes = some user.id := by
  unfold Call.writes
  cases hp : call.phase <;> simp_all [isWritten]

theorem writes_target {userId : ℕ} (hphase : call.phase.isWritten) (huser : call.user = none)
    (hmember : call.request.memberUser = some userId) : call.writes = some userId := by
  unfold Call.writes
  cases hp : call.phase <;> simp_all [isWritten]

theorem Call.Sound.frame (h : c.Sound w) (hkeeps : ∀ teamId, c.holds teamId → Keeps w w' c teamId) : c.Sound w' := by
  refine ⟨h.user, h.apart, h.early, h.known, fun hphase actor hactor => ?_, fun hphase target htarget => ?_,
    fun hphase user teamId huser hteam => ?_, fun hphase huser target htarget => ?_⟩
  · obtain ⟨hrequest, hteam, hstands, hcheck⟩ := h.actor hphase actor hactor
    exact ⟨hrequest, hteam, (hkeeps _ ((holds_iff).mpr ⟨hphase, hteam⟩)).stands actor rfl hstands, hcheck⟩
  · obtain ⟨hrequest, hteam, hstands, hcheck⟩ := h.target hphase target htarget
    exact ⟨hrequest, hteam, (hkeeps _ ((holds_iff).mpr ⟨hphase, hteam⟩)).stands target rfl hstands, hcheck⟩
  · obtain ⟨hvacant, hexists⟩ := h.inserts hphase user teamId huser hteam
    have hkept := hkeeps teamId ((holds_iff).mpr ⟨holdsTeam_of_isWritten hphase, hteam⟩)
    exact ⟨hkept.vacant _ hvacant, hkept.user _ (writes_user hphase huser) hexists⟩
  · have hholds := holdsTeam_of_isWritten hphase
    obtain ⟨hmember, hteam, -, -⟩ := h.target hholds target htarget
    have hkept := hkeeps _ ((holds_iff).mpr ⟨hholds, hteam⟩)
    exact hkept.row target rfl (writes_target hphase huser hmember) (h.changes hphase huser target htarget)

theorem Keeps.same (hmembers : w'.members = w.members) (husers : w'.users = w.users) : Keeps w w' c teamId := by
  refine ⟨fun m _ h => ?_, fun userId h => ?_, fun userId _ h => ?_, fun m _ _ h => ?_⟩
  · unfold Stands
    rw [hmembers, husers]
    exact h
  · unfold findByTeamAndUser
    rw [hmembers]
    exact h
  · rw [husers]
    exact h
  · rw [hmembers]
    exact h

theorem Keeps.register {mk : ℕ → User} {hmk : ∀ n, (mk n).id = n} :
    Keeps w { w with users := w.users.insert mk hmk } c teamId := by
  refine ⟨fun m _ h => ?_, fun userId h => h, fun userId _ h => ?_, fun m _ _ h => h⟩
  · rcases h with hrow | ⟨hnone, hlt, huser, hltuser⟩
    · exact .inl hrow
    · refine .inr ⟨hnone, hlt, ?_, Nat.lt_succ_of_lt hltuser⟩
      show (w.users.insert mk hmk).get m.userId = none
      rw [get_insert, if_neg (by omega)]
      exact huser
  · show (w.users.insert mk hmk).get userId ≠ none
    rw [get_insert]
    split_ifs
    · simp
    · exact h

theorem Keeps.delete {userId : ℕ} (hw : w.Consistent) (hfree : c.writes ≠ some userId)
    (htables : w'.users = w.users.deleteRows fun user => user.id = userId)
    (hmembers : w'.members = w.members.deleteRows fun m => m.userId = userId) : Keeps w w' c teamId := by
  have husers : ∀ k, k ≠ userId → (w.users.deleteRows fun user => user.id = userId).get k = w.users.get k := by
    intro k hk
    rw [get_deleteRows]
    cases hget : w.users.get k with
    | none => rfl
    | some user =>
      have hid := Table.key_of_get hget
      exact filter_some_pos (by simp [hid, hk])
  have hgone : (w.users.deleteRows fun user => user.id = userId).get userId = none := by
    rw [get_deleteRows, filter_eq_none_iff]
    intro user hget
    simp [Table.key_of_get hget]
  refine ⟨fun m _ h => ?_, fun k h => ?_, fun k hk h => ?_, fun m _ hm h => ?_⟩
  · rcases h with hrow | ⟨hnone, hlt, huser, hltuser⟩
    · by_cases hu : m.userId = userId
      · refine .inr ⟨?_, ?_, ?_, ?_⟩
        · rw [hmembers, get_deleteRows, Table.get_of_mem hrow, filter_some_neg (by simp [hu])]
        · rw [hmembers]
          exact w.members.below m hrow
        · rw [htables, hu]
          exact hgone
        · obtain ⟨user, hget⟩ := ne_none_iff_exists'.mp (hw.users m hrow)
          have hlt : m.userId < w.users.next := lt_next_of_get hget
          rw [htables]
          exact hlt
      · rw [Stands, hmembers]
        exact .inl (mem_deleteRows.mpr ⟨hrow, by simp [hu]⟩)
    · refine .inr ⟨?_, ?_, ?_, ?_⟩
      · rw [hmembers, get_deleteRows, hnone]
        rfl
      · rw [hmembers]
        exact hlt
      · rw [htables, get_deleteRows, huser]
        rfl
      · rw [htables]
        exact hltuser
  · rw [find_none] at h ⊢
    intro m hm
    rw [hmembers] at hm
    exact h m (mem_deleteRows.mp hm).1
  · have hne : k ≠ userId := fun heq => hfree (heq ▸ hk)
    rw [htables, husers k hne]
    exact h
  · have hne : m.userId ≠ userId := fun heq => hfree (heq ▸ hm)
    rw [hmembers]
    exact mem_deleteRows.mpr ⟨h, by simp [hne]⟩

/-! ### A commit -/

/-- What a commit writes. -/
inductive Write (w : World) (call : Call) (teamId : ℕ) : SerialTable TeamMember.id → Prop
  | insert (user : User) (input : AddTeamMemberInput) (huser : call.user = some user)
      (hadd : call.request.addition = some input) :
      Write w call teamId (w.members.insert (fun id => ⟨id, teamId, user.id, input.role⟩) fun _ => rfl)
  | update (target : TeamMember) (role : TeamMemberRole) (huser : call.user = none) (htarget : call.target = some target)
      (hrole : call.request.newRole = some role) : Write w call teamId
        (w.members.updateRows (fun m => m.id = target.id) (fun m => { m with role := role }) fun _ => rfl)
  | delete (target : TeamMember) (huser : call.user = none) (htarget : call.target = some target)
      (hrole : call.request.newRole = none) : Write w call teamId (w.members.deleteRows fun m => m.id = target.id)
  | nothing (huser : call.user = none) (htarget : call.target = none) : Write w call teamId w.members

theorem applyWrite_cases (hcall : call.Sound w) : Write w call teamId (applyWrite w.members call teamId) := by
  cases huser : call.user with
  | some user =>
    obtain ⟨input, hadd⟩ := isSome_iff_exists.mp (hcall.user (by simp [huser]))
    have hwrite : applyWrite w.members call teamId =
        w.members.insert (fun id => ⟨id, teamId, user.id, input.role⟩) fun _ => rfl := by
      simp only [applyWrite, huser, hadd]
    rw [hwrite]
    exact .insert user input huser hadd
  | none =>
    cases htarget : call.target with
    | none =>
      have hwrite : applyWrite w.members call teamId = w.members := by simp only [applyWrite, huser, htarget]
      rw [hwrite]
      exact .nothing huser htarget
    | some target =>
      cases hrole : call.request.newRole with
      | some role =>
        have hwrite : applyWrite w.members call teamId =
            w.members.updateRows (fun m => m.id = target.id) (fun m => { m with role := role }) fun _ => rfl := by
          simp only [applyWrite, huser, htarget, hrole]
        rw [hwrite]
        exact .update target role huser htarget hrole
      | none =>
        have hwrite : applyWrite w.members call teamId = w.members.deleteRows fun m => m.id = target.id := by
          simp only [applyWrite, huser, htarget, hrole]
        rw [hwrite]
        exact .delete target huser htarget hrole

theorem write_get_none {members : SerialTable TeamMember.id} (h : Write w call teamId members) {k : ℕ}
    (hnone : w.members.get k = none) (hlt : k < w.members.next) :
    members.get k = none ∧ k < members.next := by
  cases h with
  | insert user input huser hadd =>
    refine ⟨?_, Nat.lt_succ_of_lt hlt⟩
    rw [get_insert, if_neg (by omega)]
    exact hnone
  | update target role huser htarget hrole =>
    refine ⟨?_, hlt⟩
    rw [get_updateRows, hnone]
    rfl
  | delete target huser htarget hrole =>
    refine ⟨?_, hlt⟩
    rw [get_deleteRows, hnone]
    rfl
  | nothing _ _ => exact ⟨hnone, hlt⟩

section Commit

variable (hw : w.Consistent) (hcall : call.Sound w) (hphase : call.phase.isWritten)
variable (hteam : call.request.team = some teamId)
include hw hcall hphase hteam

omit hw in
theorem target_row {target m : TeamMember} (huser : call.user = none) (htarget : call.target = some target)
    (hm : m ∈ w.members.rows) (hid : m.id = target.id) : m = target ∧ m.teamId = teamId := by
  have hrow := hcall.changes hphase huser target htarget
  obtain ⟨-, hteam', -, -⟩ := hcall.target (holdsTeam_of_isWritten hphase) target htarget
  obtain rfl := Table.eq_of_key hm hrow hid
  exact ⟨rfl, some.inj (hteam'.symm.trans hteam)⟩

omit hw in
theorem other_team_rows {members : SerialTable TeamMember.id} (h : Write w call teamId members) {m : TeamMember}
    (hother : m.teamId ≠ teamId) : m ∈ members.rows ↔ m ∈ w.members.rows := by
  have hnot : ∀ target, call.user = none → call.target = some target → m ∈ w.members.rows → m.id ≠ target.id :=
    fun target huser htarget hm hid => hother (target_row hcall hphase hteam huser htarget hm hid).2
  cases h with
  | insert user input huser hadd =>
    rw [mem_insert]
    constructor
    · rintro (hold | rfl)
      · exact hold
      · exact absurd rfl hother
    · exact .inl
  | update target role huser htarget hrole =>
    rw [mem_updateRows]
    constructor
    · rintro ⟨r, hr, rfl⟩
      by_cases hid : r.id = target.id
      · rw [if_pos (by simpa using hid)] at hother
        exact absurd (target_row hcall hphase hteam huser htarget hr hid).2 hother
      · rw [if_neg (by simpa using hid)]
        exact hr
    · exact fun hm => ⟨m, hm, if_neg (by simpa using hnot target huser htarget hm)⟩
  | delete target huser htarget hrole =>
    rw [mem_deleteRows]
    exact ⟨fun hm => hm.1, fun hm => ⟨hm, by simpa using hnot target huser htarget hm⟩⟩
  | nothing _ _ => rfl

omit hw in
theorem Keeps.commit {other : ℕ} (hother : other ≠ teamId) : Keeps w (commitWrite w i call teamId) c other := by
  have hwrite : Write w call teamId (applyWrite w.members call teamId) := applyWrite_cases hcall
  have hrows : ∀ {m : TeamMember}, m.teamId = other →
      (m ∈ (applyWrite w.members call teamId).rows ↔ m ∈ w.members.rows) := fun hm =>
    other_team_rows hcall hphase hteam hwrite (hm ▸ hother)
  refine ⟨fun m hm h => ?_, fun userId h => ?_, fun _ _ h => h, fun m hm _ h => (hrows hm).mpr h⟩
  · rcases h with hrow | ⟨hnone, hlt, huser, hltuser⟩
    · exact .inl ((hrows hm).mpr hrow)
    · obtain ⟨hnone', hlt'⟩ := write_get_none hwrite hnone hlt
      exact .inr ⟨hnone', hlt', huser, hltuser⟩
  · rw [find_none] at h ⊢
    intro m hrow hm
    exact h m ((hrows hm).mp hrow) hm

theorem commit_tables {members : SerialTable TeamMember.id} (h : Write w call teamId members) :
    (∀ m ∈ members.rows, w.users.get m.userId ≠ none) ∧
      ∀ m ∈ members.rows, ∀ m' ∈ members.rows, m.teamId = m'.teamId → m.userId = m'.userId → m = m' := by
  cases h with
  | insert user input huser hadd =>
    obtain ⟨hvacant, hexists⟩ := hcall.inserts hphase user teamId huser hteam
    rw [find_none] at hvacant
    refine ⟨fun m hm => ?_, fun m hm m' hm' hsame hsame' => ?_⟩
    · rcases mem_insert.mp hm with hold | rfl
      · exact hw.users m hold
      · exact hexists
    · rcases mem_insert.mp hm with hold | rfl
      · rcases mem_insert.mp hm' with hold' | rfl
        · exact hw.unique m hold m' hold' hsame hsame'
        · exact absurd hsame' (hvacant m hold hsame)
      · rcases mem_insert.mp hm' with hold' | rfl
        · exact absurd hsame'.symm (hvacant m' hold' hsame.symm)
        · rfl
  | update target role huser htarget hrole =>
    have hsplit : ∀ {r : TeamMember}, (if decide (r.id = target.id) then { r with role := role } else r).teamId = r.teamId ∧
        (if decide (r.id = target.id) then { r with role := role } else r).userId = r.userId := by
      intro r
      split_ifs <;> exact ⟨rfl, rfl⟩
    refine ⟨fun m hm => ?_, fun m hm m' hm' hsame hsame' => ?_⟩
    · obtain ⟨r, hr, rfl⟩ := mem_updateRows.mp hm
      rw [hsplit.2]
      exact hw.users r hr
    · obtain ⟨r, hr, rfl⟩ := mem_updateRows.mp hm
      obtain ⟨r', hr', rfl⟩ := mem_updateRows.mp hm'
      rw [hsplit.1, hsplit.1] at hsame
      rw [hsplit.2, hsplit.2] at hsame'
      rw [hw.unique r hr r' hr' hsame hsame']
  | delete target huser htarget hrole =>
    refine ⟨fun m hm => hw.users m (mem_deleteRows.mp hm).1, fun m hm m' hm' => ?_⟩
    exact hw.unique m (mem_deleteRows.mp hm).1 m' (mem_deleteRows.mp hm').1
  | nothing _ _ => exact ⟨hw.users, hw.unique⟩

end Commit

/-! ### Any run -/

theorem holds_of_free {t : ℕ} (h : w.teamFree t) (hget : w.calls[j]? = some c) : ¬ c.holds t := by
  have hall := List.all_eq_true.mp h c (mem_of_getElem? hget)
  simpa using hall

theorem World.Consistent.change (hw : w.Consistent) (hget : w.calls[i]? = some call)
    (hcalls : w'.calls = w.calls.set i call') (husers : ∀ m ∈ w'.members.rows, w'.users.get m.userId ≠ none)
    (hunique : ∀ m ∈ w'.members.rows, ∀ m' ∈ w'.members.rows, m.teamId = m'.teamId → m.userId = m'.userId → m = m')
    (hsound : call'.Sound w') (hholds : ∀ t, call'.holds t → call.holds t ∨ w.teamFree t)
    (hothers : ∀ (j : ℕ) (c : Call), j ≠ i → w.calls[j]? = some c → ∀ t, c.holds t → Keeps w w' c t) :
    w'.Consistent := by
  have hcases : ∀ {k : ℕ} {d : Call}, w'.calls[k]? = some d → (k = i ∧ d = call') ∨ (k ≠ i ∧ w.calls[k]? = some d) := by
    intro k d hk
    exact Census.of_set (hcalls ▸ hk)
  have hown : ∀ {k : ℕ} {d : Call} {t : ℕ}, call'.holds t → k ≠ i → w.calls[k]? = some d → ¬ d.holds t := by
    intro k d t ht hki hk hd
    rcases hholds t ht with hheld | hfree
    · exact hki (hw.exclusive k i d call t hk hget hd hheld)
    · exact holds_of_free hfree hk hd
  refine ⟨husers, hunique, fun j k c d t hj hk hc hd => ?_, fun j c hj => ?_⟩
  · rcases hcases hj with ⟨rfl, rfl⟩ | ⟨hji, hj'⟩
    · rcases hcases hk with ⟨rfl, -⟩ | ⟨hki, hk'⟩
      · rfl
      · exact absurd hd (hown hc hki hk')
    · rcases hcases hk with ⟨rfl, rfl⟩ | ⟨-, hk'⟩
      · exact absurd hc (hown hd hji hj')
      · exact hw.exclusive j k c d t hj' hk' hc hd
  · rcases hcases hj with ⟨-, rfl⟩ | ⟨hji, hj'⟩
    · exact hsound
    · exact (hw.each j c hj').frame fun t ht => hothers j c hji hj' t ht

theorem World.Consistent.setCall (hw : w.Consistent) (hget : w.calls[i]? = some call) (hsound : call'.Sound w)
    (hholds : ∀ t, call'.holds t → call.holds t ∨ w.teamFree t) : (w.setCall i call').Consistent :=
  hw.change hget rfl hw.users hw.unique (hsound.frame fun _ _ => .same rfl rfl) hholds fun _ _ _ _ _ _ => .same rfl rfl

theorem holds_next (hphase : call.phase.holdsTeam) (hrequest : call'.request = call.request) (t : ℕ)
    (h : call'.holds t) : call.holds t ∨ w.teamFree t :=
  .inl (holds_iff.mpr ⟨hphase, hrequest ▸ (holds_iff.mp h).2⟩)

theorem not_holds_next (hphase : call'.phase.holdsTeam = false) (t : ℕ) (h : call'.holds t) :
    call.holds t ∨ w.teamFree t := by
  rw [holds_iff, hphase] at h
  exact absurd h.1 (by simp)

theorem Call.Sound.goes {phase : Phase} {ownerCount : ℕ} (h : call.Sound w) (hphase : call.phase.holdsTeam)
    (hlocked : call.phase = .locked → call.request.actor = none) (hphase' : phase.early = false)
    (hwritten : phase.isWritten → call.phase.isWritten) :
    ({ call with phase := phase, ownerCount := ownerCount } : Call).Sound w where
  user := h.user
  apart := h.apart
  early := fun hearly => absurd hearly (by simp [hphase'])
  known := fun _ _ hactor => by
    by_cases hlock : call.phase = .locked
    · rw [show call.request.actor = none from hlocked hlock] at hactor
      cases hactor
    · exact h.known hphase hlock hactor
  actor := fun _ => h.actor hphase
  target := fun _ => h.target hphase
  inserts := fun hphase => h.inserts (hwritten hphase)
  changes := fun hphase => h.changes (hwritten hphase)

theorem stands_row {m : TeamMember} (h : Stands w m) (hget : w.members.get m.id ≠ none) : m ∈ w.members.rows := by
  rcases h with hrow | ⟨hnone, -⟩
  · exact hrow
  · exact absurd hnone hget

theorem done_sound (hcall : call.Sound w) : ({ call with phase := .done } : Call).Sound w' where
  user := hcall.user
  apart := hcall.apart
  early := fun h => by cases h
  known := fun h => by cases h
  actor := fun h => by cases h
  target := fun h => by cases h
  inserts := fun h => by cases h
  changes := fun h => by cases h

/-- **One statement.** -/
theorem consistent_effect (hw : w.Consistent) (hget : w.calls[i]? = some call) (h : Effect w i call w') :
    w'.Consistent := by
  have hcall := hw.each i call hget
  cases h with
  | idles => exact hw
  | leaves call' hrequest hphase hearly huser hactor htarget =>
    refine hw.setCall hget ?_ (not_holds_next hphase)
    have hnone : call'.phase.isWritten = false := by
      cases hp : call'.phase <;> simp_all [isWritten, holdsTeam]
    refine ⟨fun hu => ?_, fun hu => ?_, fun he => ?_, fun hp => ?_, fun hp => ?_, fun hp => ?_, fun hp => ?_, fun hp => ?_⟩
    · rw [hrequest]
      rcases huser with hsame | ⟨-, hadd⟩
      · exact hcall.user (hsame ▸ hu)
      · exact hadd
    · rw [htarget]
      rcases huser with hsame | ⟨hready, -⟩
      · exact hcall.apart (hsame ▸ hu)
      · exact (hcall.early (by simp [hready, early])).2
    · rw [hactor, htarget]
      exact hcall.early (by simp [hearly he, early])
    all_goals simp_all
  | locks t hphase hteam hfree =>
    have hearly : call.phase.early := by rcases hphase with hp | hp <;> simp [hp, early]
    obtain ⟨hactor, htarget⟩ := hcall.early hearly
    refine hw.setCall hget ?_ fun t' ht' => ?_
    · refine ⟨hcall.user, hcall.apart, fun _ => ⟨hactor, htarget⟩, fun _ hne => absurd rfl hne, fun _ a ha => ?_,
        fun _ t ht => ?_, (fun h => nomatch h), (fun h => nomatch h)⟩
      · rw [show call.actorMember = some a from ha] at hactor
        cases hactor
      · rw [show call.target = some t from ht] at htarget
        cases htarget
    · obtain rfl : t = t' := some.inj (hteam.symm.trans (holds_iff.mp ht').2)
      exact .inr hfree
  | knowsActor t userId actor hphase hteam hrequest hfind hcheck =>
    have hheld : call.phase.holdsTeam := by simp [hphase, holdsTeam]
    obtain ⟨hrow, hrowTeam, hrowUser⟩ := find_some hfind
    obtain ⟨-, htarget⟩ := hcall.early (by simp [hphase, early])
    refine hw.setCall hget ?_ (holds_next hheld rfl)
    refine ⟨hcall.user, hcall.apart, (fun h => nomatch h), fun _ _ _ => rfl, fun _ a ha => ?_, fun _ t ht => ?_,
      (fun h => nomatch h), (fun h => nomatch h)⟩
    · cases ha
      exact ⟨hrowUser ▸ hrequest, hrowTeam ▸ hteam, .inl hrow, hcheck⟩
    · rw [show call.target = some t from ht] at htarget
      cases htarget
  | knowsTarget t userId target hphase huser hteam hmember hfind hcheck =>
    have hheld : call.phase.holdsTeam := by rcases hphase with ⟨hp, -⟩ | hp <;> simp [hp, holdsTeam]
    obtain ⟨hrow, hrowTeam, hrowUser⟩ := find_some hfind
    refine hw.setCall hget ?_ (holds_next hheld rfl)
    refine ⟨hcall.user, fun hu => ?_, (fun h => nomatch h), fun _ _ hactor => ?_, fun _ => hcall.actor hheld,
      fun _ t ht => ?_, (fun h => nomatch h), (fun h => nomatch h)⟩
    · rw [show call.user = none from huser] at hu
      cases hu
    · rcases hphase with ⟨-, hnone⟩ | hp
      · rw [show call.request.actor = none from hnone] at hactor
        cases hactor
      · exact hcall.known hheld (by simp [hp]) hactor
    · cases ht
      exact ⟨hrowUser ▸ hmember, hrowTeam ▸ hteam, .inl hrow, hcheck⟩
  | vacant user hphase huser =>
    have hheld : call.phase.holdsTeam := by rcases hphase with ⟨hp, -⟩ | hp <;> simp [hp, holdsTeam]
    refine hw.setCall hget (hcall.goes hheld (fun hp => ?_) rfl (fun h => nomatch h)) (holds_next hheld rfl)
    rcases hphase with ⟨-, hnone⟩ | hp'
    · exact hnone
    · rw [hp] at hp'
      cases hp'
  | ownersCounted t hphase hteam hcount | checked t hphase hteam hcount =>
    have hheld : call.phase.holdsTeam := by simp [hphase, holdsTeam]
    have hnot : call.phase ≠ .locked := by simp [hphase]
    exact hw.setCall hget (hcall.goes hheld (fun hp => absurd hp hnot) rfl (fun h => nomatch h)) (holds_next hheld rfl)
  | ownersOfManagers t hphase hteam =>
    have hheld : call.phase.holdsTeam := by rcases hphase with ⟨hp, -⟩ | hp <;> simp [hp, holdsTeam]
    have hnot : call.phase ≠ .locked := by rcases hphase with ⟨hp, -⟩ | hp <;> simp [hp]
    exact hw.setCall hget (hcall.goes hheld (fun hp => absurd hp hnot) rfl (fun h => nomatch h)) (holds_next hheld rfl)
  | written t hphase hteam huser htarget =>
    have hheld : call.phase.holdsTeam := by
      rcases hphase with ⟨hp, -, -⟩ | ⟨hp, -⟩ | hp <;> simp [hp, holdsTeam]
    have hnot : call.phase ≠ .locked := by rcases hphase with ⟨hp, -, -⟩ | ⟨hp, -⟩ | hp <;> simp [hp]
    refine hw.setCall hget ?_ (holds_next hheld rfl)
    refine ⟨hcall.user, hcall.apart, (fun h => nomatch h), fun _ _ => hcall.known hheld hnot, fun _ => hcall.actor hheld,
      fun _ => hcall.target hheld, fun _ user t' hu ht' => ?_, fun _ hnone target ht => ?_⟩
    · obtain rfl : t = t' := some.inj (hteam.symm.trans ht')
      exact huser user hu
    · obtain ⟨-, -, hstands, -⟩ := hcall.target hheld target ht
      exact stands_row hstands (htarget hnone target ht)
  | confirmed hphase =>
    have hheld : call.phase.holdsTeam := by simp [hphase, holdsTeam]
    have hnot : call.phase ≠ .locked := by simp [hphase]
    have hwritten : call.phase.isWritten := by simp [hphase, isWritten]
    exact hw.setCall hget (hcall.goes hheld (fun hp => absurd hp hnot) rfl fun _ => hwritten) (holds_next hheld rfl)
  | commits t hphase hteam =>
    have hwritten : call.phase.isWritten := by rcases hphase with hp | hp <;> simp [hp, isWritten]
    have hheld := holdsTeam_of_isWritten hwritten
    obtain ⟨husers, hunique⟩ := commit_tables hw hcall hwritten hteam (applyWrite_cases hcall)
    refine hw.change hget rfl husers hunique (done_sound hcall) (not_holds_next rfl) fun j c hji hj t' ht' => ?_
    refine Keeps.commit hcall hwritten hteam fun heq => hji ?_
    exact hw.exclusive j i c call t' hj hget ht' (holds_iff.mpr ⟨hheld, heq ▸ hteam⟩)
  | deletes userId hphase hrequest hfree =>
    refine hw.change hget rfl (fun m hm => ?_) (fun m hm m' hm' => ?_) (done_sound hcall) (not_holds_next rfl)
      fun j c _ hj t ht => Keeps.delete hw (hfree c (mem_of_getElem? hj)) rfl rfl
    · obtain ⟨hrow, hkept⟩ := mem_deleteRows.mp hm
      obtain ⟨user, hget⟩ := ne_none_iff_exists'.mp (hw.users m hrow)
      show (w.users.deleteRows _).get m.userId ≠ none
      rw [get_deleteRows, hget, filter_some_pos]
      · simp
      · simpa [Table.key_of_get hget] using hkept
    · exact hw.unique m (mem_deleteRows.mp hm).1 m' (mem_deleteRows.mp hm').1

theorem World.Idle.consistent (h : w.Idle) : w.Consistent where
  users := h.users
  unique := h.unique
  exclusive := fun j k c d t hj => by simp [h.calls] at hj
  each := fun j c hj => by simp [h.calls] at hj

theorem start_sound (request : Request) : ({ request := request } : Call).Sound w where
  user := fun h => by cases h
  apart := fun h => by cases h
  early := fun _ => ⟨rfl, rfl⟩
  known := fun h => by cases h
  actor := fun h => by cases h
  target := fun h => by cases h
  inserts := fun h => by cases h
  changes := fun h => by cases h

theorem get_start {request : Request} (h : (w.calls ++ [({ request := request } : Call)])[j]? = some c) :
    w.calls[j]? = some c ∨ c = { request := request } := Census.of_append h

theorem consistent_start (hw : w.Consistent) (request : Request) :
    World.Consistent { w with calls := w.calls ++ [{ request := request }] } := by
  have hnot : ∀ t, ¬ ({ request := request } : Call).holds t := fun t h => by simp [Call.holds, holdsTeam] at h
  refine ⟨hw.users, hw.unique, fun j k c d t hj hk hc hd => ?_, fun j c hj => ?_⟩
  · rcases get_start hj with hj' | rfl
    · rcases get_start hk with hk' | rfl
      · exact hw.exclusive j k c d t hj' hk' hc hd
      · exact absurd hd (hnot t)
    · exact absurd hc (hnot t)
  · rcases get_start hj with hj' | rfl
    · exact (hw.each j c hj').frame fun _ _ => .same rfl rfl
    · exact start_sound request

theorem consistent_register (hw : w.Consistent) {mk : ℕ → User} {hmk : ∀ n, (mk n).id = n} :
    World.Consistent { w with users := w.users.insert mk hmk } := by
  refine ⟨fun m hm => ?_, hw.unique, hw.exclusive, fun j c hj => (hw.each j c hj).frame fun _ _ => .register⟩
  show (w.users.insert mk hmk).get m.userId ≠ none
  rw [get_insert]
  split_ifs
  · simp
  · exact hw.users m hm

theorem step_effect {l : Label} (h : step w l = some w') :
    (∃ username email isActive isAdmin, l = .register username email isActive isAdmin ∧
        w' = { w with users := w.users.insert (fun id => ⟨id, username, email, isActive, isAdmin⟩) fun _ => rfl }) ∨
      (∃ request, l = .start request ∧ w' = { w with calls := w.calls ++ [{ request := request }] }) ∨
      (∃ i call, l = .next i ∧ w.calls[i]? = some call ∧ Effect w i call w') ∨
      ∃ i call error, l = .abort i ∧ w.calls[i]? = some call ∧ w' = w.setCall i { call with phase := .failed error } := by
  cases l with
  | register username email isActive isAdmin =>
    exact .inl ⟨username, email, isActive, isAdmin, rfl, (some.inj h).symm⟩
  | start request => exact .inr (.inl ⟨request, rfl, (some.inj h).symm⟩)
  | next i =>
    obtain ⟨call, hget, hnext⟩ := bind_eq_some_iff.mp h
    exact .inr (.inr (.inl ⟨i, call, rfl, hget, next_effect hnext⟩))
  | abort i =>
    simp only [step] at h
    split at h
    · cases h
    · rename_i call hget
      split_ifs at h
      exact .inr (.inr (.inr ⟨i, call, _, rfl, hget, (some.inj h).symm⟩))

theorem consistent_step {l : Label} (hw : w.Consistent) (h : step w l = some w') : w'.Consistent := by
  rcases step_effect h with ⟨_, _, _, _, -, rfl⟩ | ⟨request, -, rfl⟩ | ⟨i, call, -, hget, heffect⟩ |
    ⟨i, call, error, -, hget, rfl⟩
  · exact consistent_register hw
  · exact consistent_start hw request
  · exact consistent_effect hw hget heffect
  · exact consistent_effect hw hget (.fails error)

/-- **Every run.** -/
theorem consistent_of_reach {G : World → Label → Prop} (h0 : w0.Idle) (h : membership.Reach G w0 w) : w.Consistent :=
  h.induct (I := World.Consistent) h0.consistent fun hw _ hstep => consistent_step hw hstep

end AsterDrive.Workspace.TeamMembers
