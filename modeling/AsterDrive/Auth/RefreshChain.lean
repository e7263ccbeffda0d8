import AsterDrive.Lib.Census
import AsterDrive.Auth.RefreshStore

/-!
# Auth.RefreshChain — one chain of refresh tokens for a session

What a rotation exchanges is the identity in the row of the session, so the identities of a session form one chain and
none is exchanged twice (`Identities`). A rotation has the row of the account, so the version of a token that is exchanged
is the version of the account then, and that version only grows (`Follows`).
-/

namespace AsterDrive.Auth.Refresh

open List Option SerialTable Table

variable {classify : Classify} {w w' w₀ : World} {i j : ℕ} {call call' c : Call} {history : List Event}
variable {sessions sessions' : Table AuthSession.id}

/-! ### Histories -/

theorem mem_jtis_of_chain {sessionId refreshJti : String} (h : refreshJti ∈ chain sessionId history) :
    refreshJti ∈ jtis history := by
  induction history with
  | nil => cases h
  | cons event history ih =>
    cases event with
    | created sessionId' refreshJti' | exchanged token nextRefreshJti =>
      simp only [chain] at h
      split_ifs at h
      · rcases mem_cons.mp h with rfl | hold
        · exact mem_cons_self
        · exact mem_cons_of_mem _ (ih hold)
      · exact mem_cons_of_mem _ (ih h)

theorem mem_sessionIds_of_chain {sessionId : String} (hlinked : Linked history) (h : chain sessionId history ≠ []) :
    sessionId ∈ sessionIds history := by
  induction history with
  | nil => exact absurd rfl h
  | cons event history ih =>
    cases event with
    | created sessionId' refreshJti =>
      by_cases hid : sessionId' = sessionId
      · rw [hid]
        exact mem_cons_self
      · refine mem_cons_of_mem _ (ih hlinked.2 ?_)
        simpa only [chain, if_neg hid] using h
    | exchanged token nextRefreshJti =>
      by_cases hid : token.sessionId = sessionId
      · refine ih hlinked.2 fun hnil => ?_
        have hhead := hlinked.1
        rw [hid, hnil] at hhead
        cases hhead
      · refine ih hlinked.2 ?_
        simpa only [chain, if_neg hid] using h

/-! ### The identities in the rows -/

structure Identities (sessions : Table AuthSession.id) (history : List Event) : Prop where
  linked : Linked history
  once : (presented history).Nodup
  served : ∀ refreshJti ∈ presented history, refreshJti ∈ jtis history
  chains : ∀ s ∈ sessions.rows, ∃ rest, chain s.id history = s.currentRefreshJti :: rest ∧ s.previousRefreshJti = rest.head?
  unspent : ∀ s ∈ sessions.rows, s.currentRefreshJti ∉ presented history
  distinct : ∀ s ∈ sessions.rows, ∀ s' ∈ sessions.rows, s.currentRefreshJti = s'.currentRefreshJti → s = s'

variable {s : AuthSession}

theorem Identities.current_mem (h : Identities sessions history) (hs : s ∈ sessions.rows) :
    s.currentRefreshJti ∈ jtis history := by
  obtain ⟨rest, hchain, -⟩ := h.chains s hs
  have hmem : s.currentRefreshJti ∈ chain s.id history := by
    rw [hchain]
    exact mem_cons_self
  exact mem_jtis_of_chain hmem

theorem Identities.id_mem (h : Identities sessions history) (hs : s ∈ sessions.rows) : s.id ∈ sessionIds history := by
  obtain ⟨rest, hchain, -⟩ := h.chains s hs
  refine mem_sessionIds_of_chain h.linked ?_
  rw [hchain]
  exact cons_ne_nil _ _

/-- Sessions go or are revoked. -/
def Shrinks (sessions sessions' : Table AuthSession.id) : Prop :=
  ∀ s' ∈ sessions'.rows, ∃ s ∈ sessions.rows, s.id = s'.id ∧ s.currentRefreshJti = s'.currentRefreshJti ∧
    s.previousRefreshJti = s'.previousRefreshJti ∧ s.lastSeenAt = s'.lastSeenAt

theorem Shrinks.refl : Shrinks sessions sessions := fun s hs => ⟨s, hs, rfl, rfl, rfl, rfl⟩

theorem shrinks_delete (p : AuthSession → Bool) : Shrinks sessions (sessions.deleteWhere p) := fun s hs =>
  ⟨s, (mem_deleteWhere.mp hs).1, rfl, rfl, rfl, rfl⟩

theorem shrinks_revoke (db : Db) (p : AuthSession → Bool) (now : ℤ) :
    Shrinks db.sessions (revokeWhere db p now).sessions := by
  intro s' hs'
  simp only [revokeWhere, mem_updateWhere] at hs'
  obtain ⟨s, hs, rfl⟩ := hs'
  refine ⟨s, hs, ?_⟩
  split_ifs <;> exact ⟨rfl, rfl, rfl, rfl⟩

theorem Identities.shrink (h : Identities sessions history) (hshrinks : Shrinks sessions sessions') :
    Identities sessions' history := by
  refine ⟨h.linked, h.once, h.served, fun s' hs' => ?_, fun s' hs' => ?_, fun s' hs' t' ht' heq => ?_⟩
  · obtain ⟨s, hs, hid, hcurrent, hprevious, -⟩ := hshrinks s' hs'
    rw [← hid, ← hcurrent, ← hprevious]
    exact h.chains s hs
  · obtain ⟨s, hs, -, hcurrent, -, -⟩ := hshrinks s' hs'
    rw [← hcurrent]
    exact h.unspent s hs
  · obtain ⟨s, hs, hid, hcurrent, -, -⟩ := hshrinks s' hs'
    obtain ⟨t, ht, hid', hcurrent', -, -⟩ := hshrinks t' ht'
    have hsame := h.distinct s hs t ht (hcurrent.trans (heq.trans hcurrent'.symm))
    exact eq_of_key hs' ht' (hid.symm.trans ((congrArg AuthSession.id hsame).trans hid'))

section Rotate

variable {rotation : RefreshRotation} {s₀ : AuthSession} (h : Identities sessions history) (hs₀ : s₀ ∈ sessions.rows)
variable (hfence : rotation.fences s₀)
include hfence

theorem fences_spec : s₀.id = rotation.sessionId ∧ s₀.userId = rotation.userId ∧
    s₀.currentRefreshJti = rotation.currentRefreshJti ∧ s₀.revokedAt = none ∧
      rotation.lastSeenAt < s₀.refreshExpiresAt := by
  simpa [RefreshRotation.fences] using hfence

include hs₀

theorem mem_rotated {s : AuthSession} (hs : s ∈ (sessions.updateWhere rotation.fences rotation.columns fun _ => rfl).rows) :
    s = rotation.columns s₀ ∨ (s ∈ sessions.rows ∧ s.id ≠ rotation.sessionId) := by
  obtain ⟨r, hr, rfl⟩ := mem_updateWhere.mp hs
  have hid := (fences_spec hfence).1
  by_cases hrid : r.id = rotation.sessionId
  · obtain rfl : r = s₀ := eq_of_key hr hs₀ (hrid.trans hid.symm)
    rw [if_pos hfence]
    exact .inl rfl
  · have hnot : ¬ rotation.fences r = true := fun hr' => hrid (fences_spec hr').1
    rw [if_neg hnot]
    exact .inr ⟨hr, hrid⟩

include h

/-- **A rotation.** -/
theorem Identities.rotate {token : Token} (hsession : token.sessionId = rotation.sessionId)
    (hjti : token.refreshJti = rotation.currentRefreshJti) (hnew : rotation.nextRefreshJti ∉ jtis history) :
    Identities (sessions.updateWhere rotation.fences rotation.columns fun _ => rfl)
      (.exchanged token rotation.nextRefreshJti :: history) := by
  obtain ⟨hid, -, hcurrent, -, -⟩ := fences_spec hfence
  obtain ⟨rest, hchain, -⟩ := h.chains s₀ hs₀
  have hspent : ∀ {s : AuthSession}, s ∈ sessions.rows → s.id ≠ rotation.sessionId →
      s.currentRefreshJti ≠ rotation.currentRefreshJti := by
    intro s hs hne heq
    exact hne ((congrArg AuthSession.id (h.distinct s hs s₀ hs₀ (heq.trans hcurrent.symm))).trans hid)
  have hlast : rotation.currentRefreshJti ∈ jtis history := hcurrent ▸ h.current_mem hs₀
  refine ⟨⟨?_, h.linked⟩, ?_, ?_, fun s hs => ?_, fun s hs => ?_, fun s hs t ht heq => ?_⟩
  · rw [hsession, ← hid, hchain, hjti, ← hcurrent]
    rfl
  · refine nodup_cons.mpr ⟨?_, h.once⟩
    rw [hjti, ← hcurrent]
    exact h.unspent s₀ hs₀
  · intro refreshJti hmem
    refine mem_cons_of_mem _ ?_
    rcases mem_cons.mp hmem with rfl | hold
    · rw [hjti]
      exact hlast
    · exact h.served refreshJti hold
  · rcases mem_rotated hs₀ hfence hs with rfl | ⟨hold, hne⟩
    · refine ⟨chain s₀.id history, ?_, ?_⟩
      · show chain s₀.id (.exchanged token rotation.nextRefreshJti :: history) = _
        simp only [chain, hsession, hid, if_true]
        rfl
      · rw [hchain, hcurrent]
        rfl
    · obtain ⟨rest', hchain', hprevious⟩ := h.chains s hold
      refine ⟨rest', ?_, hprevious⟩
      rw [chain, if_neg fun heq => hne (heq.symm.trans hsession), hchain']
  · rcases mem_rotated hs₀ hfence hs with rfl | ⟨hold, hne⟩
    · intro hmem
      rcases mem_cons.mp hmem with heq | hold
      · have hsame : rotation.nextRefreshJti = rotation.currentRefreshJti := heq.trans hjti
        exact hnew (hsame ▸ hlast)
      · exact hnew (h.served _ hold)
    · intro hmem
      rcases mem_cons.mp hmem with heq | hold'
      · exact hspent hold hne (heq.trans hjti)
      · exact h.unspent s hold hold'
  · rcases mem_rotated hs₀ hfence hs with rfl | ⟨hold, hne⟩
    · rcases mem_rotated hs₀ hfence ht with rfl | ⟨hold', hne'⟩
      · rfl
      · exact absurd (h.current_mem hold') (heq ▸ hnew)
    · rcases mem_rotated hs₀ hfence ht with rfl | ⟨hold', hne'⟩
      · exact absurd (h.current_mem hold) (heq ▸ hnew)
      · exact h.distinct s hold t hold' heq

end Rotate

/-- **A login.** -/
theorem Identities.create (h : Identities sessions history) {s₀ : AuthSession}
    (hinsert : sessions.insertNew s₀ = some sessions') (hfirst : s₀.previousRefreshJti = none)
    (hjti : s₀.currentRefreshJti ∉ jtis history) (hid : s₀.id ∉ sessionIds history) :
    Identities sessions' (.created s₀.id s₀.currentRefreshJti :: history) := by
  have hnil : chain s₀.id history = [] := by
    by_contra hne
    exact hid (mem_sessionIds_of_chain h.linked hne)
  have hrows : ∀ {s : AuthSession}, s ∈ sessions'.rows → s = s₀ ∨ s ∈ sessions.rows := by
    intro s hs
    obtain ⟨-, hrows⟩ := insertNew_eq_some hinsert
    rw [hrows] at hs
    rcases mem_append.mp hs with hold | hnew
    · exact .inr hold
    · exact .inl (mem_singleton.mp hnew)
  refine ⟨⟨hnil, h.linked⟩, h.once, fun j hj => mem_cons_of_mem _ (h.served j hj), fun s hs => ?_, fun s hs => ?_,
    fun s hs t ht heq => ?_⟩
  · rcases hrows hs with rfl | hold
    · refine ⟨[], ?_, hfirst⟩
      rw [chain, if_pos rfl, hnil]
    · obtain ⟨rest, hchain, hprevious⟩ := h.chains s hold
      refine ⟨rest, ?_, hprevious⟩
      rw [chain, if_neg (fun hsame : s₀.id = s.id => hid (hsame ▸ h.id_mem hold)), hchain]
  · rcases hrows hs with rfl | hold
    · exact fun hmem => hjti (h.served _ hmem)
    · exact h.unspent s hold
  · rcases hrows hs with rfl | hold
    · rcases hrows ht with rfl | hold'
      · rfl
      · exact absurd (heq ▸ h.current_mem hold') hjti
    · rcases hrows ht with rfl | hold'
      · exact absurd (heq ▸ h.current_mem hold) hjti
      · exact h.distinct s hold t hold' heq

/-! ### Accounts -/

/-- Accounts come and go, and the version of one that stays only grows. -/
structure Grows (users users' : SerialTable User.id) : Prop where
  next : users.next ≤ users'.next
  version : ∀ id user', users'.get id = some user' →
    (∃ user, users.get id = some user ∧ user.sessionVersion ≤ user'.sessionVersion) ∨ users.next ≤ id

theorem Grows.refl (users : SerialTable User.id) : Grows users users :=
  ⟨Nat.le_refl _, fun _ user' h => .inl ⟨user', h, Int.le_refl _⟩⟩

theorem Grows.trans {users users' users'' : SerialTable User.id} (h : Grows users users') (h' : Grows users' users'') :
    Grows users users'' := by
  refine ⟨Nat.le_trans h.next h'.next, fun id user'' hget => ?_⟩
  rcases h'.version id user'' hget with ⟨user', hget', hle⟩ | hnew
  · rcases h.version id user' hget' with ⟨user, hget0, hle0⟩ | hnew
    · exact .inl ⟨user, hget0, Int.le_trans hle0 hle⟩
    · exact .inr hnew
  · exact .inr (Nat.le_trans h.next hnew)

variable {id : ℕ}

theorem Grows.le {users users' : SerialTable User.id} (h : Grows users users') {user' : User} {version : ℤ}
    (hlt : id < users.next) (hknown : ∀ user, users.get id = some user → version ≤ user.sessionVersion)
    (hget : users'.get id = some user') : version ≤ user'.sessionVersion := by
  rcases h.version id user' hget with ⟨user, hget0, hle⟩ | hnew
  · exact Int.le_trans (hknown user hget0) hle
  · omega

theorem grows_insert (users : SerialTable User.id) {mk : ℕ → User} (hmk : ∀ n, (mk n).id = n) :
    Grows users (users.insert mk hmk) := by
  refine ⟨Nat.le_succ _, fun id user' hget => ?_⟩
  rw [get_insert] at hget
  split_ifs at hget with hid
  · exact .inr (Nat.le_of_eq hid)
  · exact .inl ⟨user', hget, Int.le_refl _⟩

theorem grows_delete (users : SerialTable User.id) (p : User → Bool) : Grows users (users.deleteRows p) := by
  refine ⟨Nat.le_refl _, fun id user' hget => .inl ⟨user', ?_, Int.le_refl _⟩⟩
  rw [get_deleteRows, filter_eq_some_iff] at hget
  exact hget.1

theorem grows_update (users : SerialTable User.id) (p : User → Bool) {f : User → User} {hf : ∀ r, (f r).id = r.id}
    (hversion : ∀ user, user.sessionVersion ≤ (f user).sessionVersion) : Grows users (users.updateRows p f hf) := by
  refine ⟨Nat.le_refl _, fun id user' hget => ?_⟩
  rw [get_updateRows, map_eq_some_iff] at hget
  obtain ⟨user, hget, rfl⟩ := hget
  refine .inl ⟨user, hget, ?_⟩
  split_ifs
  · exact hversion user
  · exact Int.le_refl _

structure Accounts (w : World) : Prop where
  issued : ∀ token ∈ w.issued, token.userId < w.db.users.next ∧
    ∀ user, w.db.users.get token.userId = some user → (token.sessionVersion : ℤ) ≤ user.sessionVersion
  logins : ∀ (j : ℕ) (c : Call) (read : User), w.calls[j]? = some c → c.user = some read →
    read.id < w.db.users.next ∧ ∀ user, w.db.users.get read.id = some user → read.sessionVersion ≤ user.sessionVersion
  locked : ∀ (j : ℕ) (c : Call) (request : RefreshRotationRequest), w.calls[j]? = some c → c.request = .refresh request →
    c.phase = .rotating →
      ∃ user, w.db.users.get request.userId = some user ∧ toU64 user.sessionVersion = some request.sessionVersion

/-- What a later state has to do with an earlier one. -/
structure Follows (w w' : World) : Prop where
  users : Grows w.db.users w'.db.users
  seen : ∀ s' ∈ w'.db.sessions.rows, (∃ s ∈ w.db.sessions.rows, s.id = s'.id ∧ s.lastSeenAt ≤ s'.lastSeenAt) ∨
    s'.id ∉ sessionIds w.history
  history : ∃ new, w'.history = new ++ w.history ∧ ∀ token nextRefreshJti, .exchanged token nextRefreshJti ∈ new →
    (∃ user, w.db.users.get token.userId = some user ∧ user.sessionVersion ≤ token.sessionVersion) ∨
      w.db.users.next ≤ token.userId

theorem sessionIds_append (new history : List Event) : ∀ id ∈ sessionIds history, id ∈ sessionIds (new ++ history) := by
  induction new with
  | nil => exact fun _ h => h
  | cons event new ih =>
    cases event with
    | created sessionId refreshJti => exact fun id h => mem_cons_of_mem _ (ih id h)
    | exchanged token nextRefreshJti => exact ih

theorem Follows.trans {w₁ w₂ w₃ : World} (h : Follows w₁ w₂) (h' : Follows w₂ w₃) : Follows w₁ w₃ := by
  obtain ⟨new, hnew, hexchanged⟩ := h.history
  obtain ⟨new', hnew', hexchanged'⟩ := h'.history
  refine ⟨h.users.trans h'.users, fun s'' hs'' => ?_, new' ++ new, by rw [hnew', hnew, append_assoc], ?_⟩
  · rcases h'.seen s'' hs'' with ⟨s', hs', hid', hle'⟩ | hfresh
    · rcases h.seen s' hs' with ⟨s, hs, hid, hle⟩ | hfresh
      · exact .inl ⟨s, hs, hid.trans hid', Int.le_trans hle hle'⟩
      · exact .inr (hid' ▸ hfresh)
    · refine .inr fun hold => hfresh ?_
      rw [hnew]
      exact sessionIds_append new w₁.history _ hold
  · intro token nextRefreshJti hmem
    rcases mem_append.mp hmem with hlate | hearly
    · rcases hexchanged' token nextRefreshJti hlate with ⟨user', hget', hle'⟩ | hnone
      · rcases h.users.version _ user' hget' with ⟨user, hget, hle⟩ | hnone
        · exact .inl ⟨user, hget, Int.le_trans hle hle'⟩
        · exact .inr hnone
      · exact .inr (Nat.le_trans h.users.next hnone)
    · exact hexchanged token nextRefreshJti hearly

structure World.Sound (w : World) : Prop where
  identities : Identities w.db.sessions w.history
  accounts : Accounts w

theorem World.Sound.quiet (hw : w.Sound) (hissued : w'.issued = w.issued) (hhistory : w'.history = w.history)
    (husers : Grows w.db.users w'.db.users) (hsessions : Shrinks w.db.sessions w'.db.sessions)
    (hlogins : ∀ (j : ℕ) (c : Call) (read : User), w'.calls[j]? = some c → c.user = some read →
      (∃ (k : ℕ) (d : Call), w.calls[k]? = some d ∧ d.user = some read) ∨ w.db.users.get read.id = some read)
    (hlocked : ∀ (j : ℕ) (c : Call) (request : RefreshRotationRequest), w'.calls[j]? = some c →
      c.request = .refresh request → c.phase = .rotating →
        ∃ user, w'.db.users.get request.userId = some user ∧ toU64 user.sessionVersion = some request.sessionVersion) :
    w'.Sound ∧ Follows w w' := by
  refine ⟨⟨?_, fun token htoken => ?_, fun j c read hj hread => ?_, hlocked⟩, husers, fun s' hs' => ?_, [], hhistory,
    fun _ _ h => nomatch h⟩
  · rw [hhistory]
    exact hw.identities.shrink hsessions
  · rw [hissued] at htoken
    obtain ⟨hlt, hle⟩ := hw.accounts.issued token htoken
    exact ⟨Nat.lt_of_lt_of_le hlt husers.next, fun user hget => husers.le hlt hle hget⟩
  · rcases hlogins j c read hj hread with ⟨k, d, hk, hd⟩ | hget
    · obtain ⟨hlt, hle⟩ := hw.accounts.logins k d read hk hd
      exact ⟨Nat.lt_of_lt_of_le hlt husers.next, fun user hget => husers.le hlt hle hget⟩
    · have hlt := lt_next_of_get hget
      refine ⟨Nat.lt_of_lt_of_le hlt husers.next, fun user hget' => husers.le hlt (fun user0 hget0 => ?_) hget'⟩
      rw [some.inj (hget.symm.trans hget0)]
  · obtain ⟨s, hs, hid, -, -, hseen⟩ := hsessions s' hs'
    exact .inl ⟨s, hs, hid, Int.le_of_eq hseen⟩

/-! ### Calls -/

/-- The effect of the next statement of call `i`. -/
inductive Effect (w : World) (i : ℕ) (call : Call) : World → Prop
  | moves (phase : Phase) (hphase : phase ≠ .rotating) : Effect w i call (w.setCall i { call with phase := phase })
  | reads (user : User) (hget : w.db.users.get user.id = some user) :
      Effect w i call (w.setCall i { call with phase := .userRead, user := some user })
  | decides (request : RefreshRotationRequest) (user : User) (hrequest : call.request = .refresh request)
      (hget : w.db.users.get request.userId = some user)
      (hversion : toU64 user.sessionVersion = some request.sessionVersion) :
      Effect w i call (w.setCall i { call with phase := .rotating })
  | rejects (request : RefreshRotationRequest) (reason : RefreshRejection) (db : Db)
      (hfree : w.accountFree request.userId) (hreject : DriveRefreshStore.reject w.db request reason = .ok db) :
      Effect w i call { w.setCall i { call with phase := .over (.rejected reason) } with db := db }
  | rotates (request : RefreshRotationRequest) (refreshExpiresAt lastSeenAt : ℤ) (db : Db)
      (hrequest : call.request = .refresh request) (hphase : call.phase = .rotating)
      (hrotate : rotateRefreshFenced w.db
        ⟨request.userId, request.sessionId, request.currentRefreshJti, request.nextRefreshJti, refreshExpiresAt,
          request.client, lastSeenAt⟩ = .ok (true, db)) :
      Effect w i call { w.setCall i { call with phase := .over .rotated } with
          db := db
          issued := request.successor :: w.issued
          history := .exchanged request.token request.nextRefreshJti :: w.history }
  | logs (request : LoginRequest) (user : User) (sessionVersion : ℕ) (now : ℤ) (restriction : Restriction)
      (sessions : Table AuthSession.id) (hrequest : call.request = .login request) (hphase : call.phase = .userRead)
      (huser : call.user = some user) (hversion : toU64 user.sessionVersion = some sessionVersion)
      (hinsert : w.db.sessions.insertNew ⟨request.sessionId, user.id, request.refreshJti, none, request.refreshExpiresAt,
        request.client, now, now, none⟩ = some sessions) :
      Effect w i call { w.setCall i { call with phase := .loggedIn } with
          db := { w.db with sessions := sessions }
          issued := ⟨user.id, request.sessionId, sessionVersion, request.refreshJti, restriction⟩ :: w.issued
          history := .created request.sessionId request.refreshJti :: w.history }

theorem Effect.fails (e : AsterError) : Effect w i call (w.setCall i { call with phase := .failed e }) :=
  .moves _ (fun h => nomatch h)

variable {db : Db} {request : RefreshRotationRequest} {clock : ℤ}

theorem decide_rotate {passwordLoginEnabled : Bool}
    (h : DriveRefreshStore.decide classify passwordLoginEnabled db request clock = .rotate) :
    ∃ user, db.users.get request.userId = some user ∧ toU64 user.sessionVersion = some request.sessionVersion := by
  unfold DriveRefreshStore.decide at h
  split at h
  · cases h
  · rename_i user hget
    split_ifs at h with hactive hversion hrestricted
    exact ⟨user, hget, by simpa using hversion⟩

theorem commitRejection_effect {reason : RefreshRejection}
    (hfree : w.accountFree request.userId) : Effect w i call (commitRejection w i call request reason) := by
  unfold commitRejection
  split
  · exact .fails _
  · rename_i db hreject
    exact .rejects request reason db hfree hreject

theorem beginRotation_effect (hrequest : call.request = .refresh request)
    (h : beginRotation classify w i call request clock = some w') : Effect w i call w' := by
  unfold beginRotation at h
  split_ifs at h with hbusy
  have hfree : w.accountFree request.userId := by simpa using hbusy
  split at h
  · cases h
    exact commitRejection_effect hfree
  · rename_i hdecide
    cases h
    obtain ⟨user, hget, hversion⟩ := decide_rotate hdecide
    exact .decides request user hrequest hget hversion

theorem resolveConflict_effect
    (h : resolveConflict classify w i call request clock = some w') : Effect w i call w' := by
  unfold resolveConflict at h
  split_ifs at h with hbusy
  have hfree : w.accountFree request.userId := by simpa using hbusy
  split at h
  · cases h
    exact commitRejection_effect hfree
  · cases h
    exact .fails _

theorem commitRotation_effect (hrequest : call.request = .refresh request)
    (hphase : call.phase = .rotating) : Effect w i call (commitRotation w i call request) := by
  unfold commitRotation
  split
  · split
    · exact .fails _
    · exact .moves _ (fun h => nomatch h)
    · rename_i db hrotate
      exact .rotates request _ _ db hrequest hphase hrotate
  all_goals exact .fails _

theorem readUser_effect {request : LoginRequest} : Effect w i call (readUser w i call request) := by
  unfold readUser
  split
  · exact .fails _
  · rename_i user hget
    refine .reads user ?_
    rw [key_of_get hget]
    exact hget

variable {user : User}

theorem persistAuthSession_effect {request : LoginRequest} {now : ℤ}
    (hrequest : call.request = .login request) (hphase : call.phase = .userRead) (huser : call.user = some user) :
    Effect w i call (persistAuthSession w i call request user now) := by
  unfold persistAuthSession
  split
  · exact .fails _
  · rename_i sessionVersion hversion
    split
    · exact .fails _
    · split
      · exact .fails _
      · split
        · exact .fails _
        · rename_i sessions hinsert
          exact .logs request user sessionVersion now _ sessions hrequest hphase huser hversion hinsert

/-- **Inversion.** -/
theorem next_effect (h : next classify w i call clock = some w') : Effect w i call w' := by
  unfold next at h
  split at h
  · rename_i hrequest hphase
    exact beginRotation_effect hrequest h
  · rename_i hrequest hphase
    cases h
    exact commitRotation_effect hrequest hphase
  · exact resolveConflict_effect h
  · cases h
    exact readUser_effect
  · rename_i hrequest hphase
    obtain ⟨user, huser, rfl⟩ := map_eq_some_iff.mp h
    exact persistAuthSession_effect hrequest hphase huser
  · cases h

/-! ### One step -/

theorem locked_frame (hw : Accounts w) (hfree : w.accountFree id)
    (hsame : ∀ k, k ≠ id → w'.db.users.get k = w.db.users.get k)
    (hj : w.calls[j]? = some c) (hrequest : c.request = .refresh request) (hphase : c.phase = .rotating) :
    ∃ user, w'.db.users.get request.userId = some user ∧ toU64 user.sessionVersion = some request.sessionVersion := by
  have hnot := List.all_eq_true.mp hfree c (mem_of_getElem? hj)
  have hne : request.userId ≠ id := by
    intro heq
    simp [Call.locks, hrequest, hphase, heq] at hnot
  rw [hsame _ hne]
  exact hw.locked j c request hj hrequest hphase

variable {db' : Db}

theorem bumpSessionVersion_ok (h : bumpSessionVersion db id = .ok db') : (∃ user, db.users.get id = some user ∧
      db'.users.get id = some { user with sessionVersion := user.sessionVersion + 1 }) ∧
      (∀ k, k ≠ id → db'.users.get k = db.users.get k) ∧ Grows db.users db'.users ∧ db'.sessions = db.sessions ∧
      db'.auditLogs = db.auditLogs := by
  unfold bumpSessionVersion at h
  split at h
  · cases h
  · rename_i user hget
    split_ifs at h with hbounds
    cases h
    refine ⟨⟨user, hget, ?_⟩, fun k hk => ?_, grows_update _ _ fun user => by dsimp only; omega, rfl, rfl⟩
    · rw [get_updateRows, hget]
      simp [key_of_get hget]
    · rw [get_updateRows]
      cases hgetk : db.users.get k with
      | none => rfl
      | some user' => simp [key_of_get hgetk, hk]

theorem reject_ok {reason : RefreshRejection} (h : DriveRefreshStore.reject db request reason = .ok db') :
    (∀ k, k ≠ request.userId → db'.users.get k = db.users.get k) ∧ Grows db.users db'.users ∧
      Shrinks db.sessions db'.sessions ∧ (db'.auditLogs = db.auditLogs ∨ ∃ row user, db'.auditLogs = row :: db.auditLogs ∧
        row.userId = request.userId ∧ db.users.get request.userId = some user ∧
        db'.users.get request.userId = some { user with sessionVersion := user.sessionVersion + 1 }) := by
  unfold DriveRefreshStore.reject at h
  split_ifs at h with hreuse
  · split at h
    · cases h
    · rename_i bumped hbump
      obtain ⟨⟨user, hget, hget'⟩, hothers, hgrows, hsessions, -⟩ := bumpSessionVersion_ok hbump
      split at h
      · cases h
      · cases h
        refine ⟨hothers, hgrows, ?_, .inr ⟨_, user, rfl, rfl, hget, hget'⟩⟩
        show Shrinks db.sessions (bumped.sessions.deleteWhere _)
        rw [hsessions]
        exact shrinks_delete _
  · cases h
    exact ⟨fun _ _ => rfl, .refl _, .refl, .inl rfl⟩

theorem logins_set {read : User} (hget : w.calls[i]? = some call) (hcalls : w'.calls = w.calls.set i call')
    (huser : call'.user = call.user ∨ ∃ user, call'.user = some user ∧ w.db.users.get user.id = some user)
    (hj : w'.calls[j]? = some c) (hread : c.user = some read) :
    (∃ (k : ℕ) (d : Call), w.calls[k]? = some d ∧ d.user = some read) ∨ w.db.users.get read.id = some read := by
  rw [hcalls] at hj
  rcases Census.of_set hj with ⟨-, rfl⟩ | ⟨-, hold⟩
  · rcases huser with hsame | ⟨user, hnew, hrow⟩
    · exact .inl ⟨i, call, hget, hsame ▸ hread⟩
    · obtain rfl := some.inj (hnew.symm.trans hread)
      exact .inr hrow
  · exact .inl ⟨j, c, hold, hread⟩

theorem logins_moved {read : User} (hget : w.calls[i]? = some call) (hj : (w.calls.set i call')[j]? = some c)
    (huser : call'.user = call.user) (hread : c.user = some read) :
    (∃ (k : ℕ) (d : Call), w.calls[k]? = some d ∧ d.user = some read) ∨ w.db.users.get read.id = some read := by
  have hset : (w.setCall i call').calls = w.calls.set i call' := rfl
  exact logins_set hget hset (.inl huser) hj hread

theorem rotateRefreshFenced_ok {rotation : RefreshRotation} (h : rotateRefreshFenced db rotation = .ok (true, db')) :
    (∃ s₀ ∈ db.sessions.rows, rotation.fences s₀) ∧
      db' = { db with sessions := db.sessions.updateWhere rotation.fences rotation.columns fun _ => rfl } := by
  unfold rotateRefreshFenced at h
  split_ifs at h
  obtain ⟨hany, hdb⟩ := Prod.mk.inj (Except.ok.inj h)
  exact ⟨List.any_eq_true.mp hany, hdb.symm⟩

theorem toU64_eq {value : ℤ} {n : ℕ} (h : toU64 value = some n) : (n : ℤ) = value := by
  unfold toU64 at h
  split_ifs at h with hnonneg
  cases h
  exact Int.toNat_of_nonneg hnonneg

/-- **A token is exchanged.** -/
theorem sound_rotates (hw : w.Sound) {refreshExpiresAt lastSeenAt : ℤ}
    (hget : w.calls[i]? = some call) (hrequest : call.request = .refresh request) (hphase : call.phase = .rotating)
    (hrotate : rotateRefreshFenced w.db
      ⟨request.userId, request.sessionId, request.currentRefreshJti, request.nextRefreshJti, refreshExpiresAt,
        request.client, lastSeenAt⟩ = .ok (true, db))
    (hnew : request.nextRefreshJti ∉ jtis w.history)
    (hw' : w' = { w.setCall i { call with phase := .over .rotated } with
      db := db
      issued := request.successor :: w.issued
      history := .exchanged request.token request.nextRefreshJti :: w.history }) : w'.Sound ∧ Follows w w' := by
  obtain ⟨⟨s₀, hs₀, hfence⟩, rfl⟩ := rotateRefreshFenced_ok hrotate
  obtain ⟨user, hrow, hversion⟩ := hw.accounts.locked i call request hget hrequest hphase
  have hsame := toU64_eq hversion
  subst hw'
  refine ⟨⟨hw.identities.rotate hs₀ hfence rfl rfl hnew, fun token htoken => ?_, fun j c read hj hread => ?_,
    fun j c request' hj hrequest' hphase' => ?_⟩, .refl _, fun s' hs' => ?_, [_], rfl, fun token next hmem => ?_⟩
  · rcases mem_cons.mp htoken with rfl | hold
    · refine ⟨lt_next_of_get hrow, fun user' hget' => ?_⟩
      obtain rfl := some.inj (hrow.symm.trans hget')
      exact Int.le_of_eq hsame
    · exact hw.accounts.issued token hold
  · rcases Census.of_set hj with ⟨-, rfl⟩ | ⟨-, hold⟩
    · exact hw.accounts.logins i call read hget hread
    · exact hw.accounts.logins j c read hold hread
  · rcases Census.of_set hj with ⟨-, rfl⟩ | ⟨-, hold⟩
    · cases hphase'
    · exact hw.accounts.locked j c request' hold hrequest' hphase'
  · rcases mem_rotated hs₀ hfence hs' with rfl | ⟨hold, -⟩
    · refine .inl ⟨s₀, hs₀, rfl, ?_⟩
      simp only [RefreshRotation.columns]
      split_ifs with hlate
      · exact Int.le_refl _
      · omega
    · exact .inl ⟨s', hold, rfl, Int.le_refl _⟩
  · obtain ⟨rfl, -⟩ := Event.exchanged.inj (mem_singleton.mp hmem)
    exact .inl ⟨user, hrow, Int.le_of_eq hsame.symm⟩

/-- **A session is created.** -/
theorem sound_logs (hw : w.Sound) {request : LoginRequest} {sessionVersion : ℕ} {now : ℤ}
    {restriction : Restriction} (hget : w.calls[i]? = some call) (huser : call.user = some user)
    (hversion : toU64 user.sessionVersion = some sessionVersion)
    (hinsert : w.db.sessions.insertNew ⟨request.sessionId, user.id, request.refreshJti, none, request.refreshExpiresAt,
      request.client, now, now, none⟩ = some sessions)
    (hnew : request.refreshJti ∉ jtis w.history) (hid : request.sessionId ∉ sessionIds w.history)
    (hw' : w' = { w.setCall i { call with phase := .loggedIn } with
      db := { w.db with sessions := sessions }
      issued := ⟨user.id, request.sessionId, sessionVersion, request.refreshJti, restriction⟩ :: w.issued
      history := .created request.sessionId request.refreshJti :: w.history }) : w'.Sound ∧ Follows w w' := by
  obtain ⟨hlt, hle⟩ := hw.accounts.logins i call user hget huser
  subst hw'
  refine ⟨⟨hw.identities.create hinsert rfl hnew hid, fun token htoken => ?_, fun j c read hj hread => ?_,
    fun j c request' hj hrequest' hphase' => ?_⟩, .refl _, fun s' hs' => ?_, [_], rfl, fun token next hmem => ?_⟩
  · rcases mem_cons.mp htoken with rfl | hold
    · refine ⟨hlt, fun user' hget' => ?_⟩
      exact Int.le_trans (Int.le_of_eq (toU64_eq hversion)) (hle user' hget')
    · exact hw.accounts.issued token hold
  · rcases Census.of_set hj with ⟨-, rfl⟩ | ⟨-, hold⟩
    · exact hw.accounts.logins i call read hget hread
    · exact hw.accounts.logins j c read hold hread
  · rcases Census.of_set hj with ⟨-, rfl⟩ | ⟨-, hold⟩
    · cases hphase'
    · exact hw.accounts.locked j c request' hold hrequest' hphase'
  · obtain ⟨-, hrows⟩ := insertNew_eq_some hinsert
    have hs : s' ∈ sessions.rows := hs'
    rw [hrows] at hs
    rcases mem_append.mp hs with hold | hfresh
    · exact .inl ⟨s', hold, rfl, Int.le_refl _⟩
    · rw [mem_singleton.mp hfresh]
      exact .inr hid
  · cases mem_singleton.mp hmem

/-- The identities that the next statement puts in service are new. -/
structure NewFor (w : World) (call : Call) : Prop where
  rotation : ∀ request, call.request = .refresh request → call.phase = .rotating →
    request.nextRefreshJti ∉ jtis w.history
  login : ∀ request, call.request = .login request → call.phase = .userRead →
    request.refreshJti ∉ jtis w.history ∧ request.sessionId ∉ sessionIds w.history

theorem newFor_of_guard (hget : w.calls[i]? = some call) (h : NewIdentities w (.next i clock)) :
    NewFor w call := by
  obtain ⟨request, phase, user⟩ := call
  refine ⟨fun request' hrequest hphase => ?_, fun request' hrequest hphase => ?_⟩
  · obtain rfl : request = .refresh request' := hrequest
    obtain rfl : phase = .rotating := hphase
    simpa only [NewIdentities, hget] using h
  · obtain rfl : request = .login request' := hrequest
    obtain rfl : phase = .userRead := hphase
    simpa only [NewIdentities, hget] using h

theorem sound_effect (hw : w.Sound) (hget : w.calls[i]? = some call) (hnew : NewFor w call) (h : Effect w i call w') :
    w'.Sound ∧ Follows w w' := by
  cases h with
  | moves phase hphase =>
    refine hw.quiet rfl rfl (.refl _) .refl (fun j c read hj hread => logins_moved hget hj rfl hread)
      fun j c request hj hrequest hrotating => ?_
    rcases Census.of_set hj with ⟨-, rfl⟩ | ⟨-, hold⟩
    · exact absurd hrotating hphase
    · exact hw.accounts.locked j c request hold hrequest hrotating
  | reads user hrow =>
    refine hw.quiet rfl rfl (.refl _) .refl (fun j c read hj hread => logins_set hget rfl (.inr ⟨user, rfl, hrow⟩) hj hread)
      fun j c request hj hrequest hrotating => ?_
    rcases Census.of_set hj with ⟨-, rfl⟩ | ⟨-, hold⟩
    · cases hrotating
    · exact hw.accounts.locked j c request hold hrequest hrotating
  | decides request user hrequest hrow hversion =>
    refine hw.quiet rfl rfl (.refl _) .refl (fun j c read hj hread => logins_moved hget hj rfl hread)
      fun j c request' hj hrequest' hrotating => ?_
    rcases Census.of_set hj with ⟨-, rfl⟩ | ⟨-, hold⟩
    · obtain rfl := Request.refresh.inj (hrequest.symm.trans hrequest')
      exact ⟨user, hrow, hversion⟩
    · exact hw.accounts.locked j c request' hold hrequest' hrotating
  | rejects request reason db hfree hreject =>
    obtain ⟨hothers, hgrows, hshrinks, -⟩ := reject_ok hreject
    refine hw.quiet rfl rfl hgrows hshrinks (fun j c read hj hread => logins_moved hget hj rfl hread)
      fun j c request' hj hrequest' hrotating => ?_
    rcases Census.of_set hj with ⟨-, rfl⟩ | ⟨-, hold⟩
    · cases hrotating
    · exact locked_frame hw.accounts hfree hothers hold hrequest' hrotating
  | rotates request refreshExpiresAt lastSeenAt db hrequest hphase hrotate =>
    exact sound_rotates hw hget hrequest hphase hrotate (hnew.rotation request hrequest hphase) rfl
  | logs request user sessionVersion now restriction sessions hrequest hphase huser hversion hinsert =>
    obtain ⟨hjti, hid⟩ := hnew.login request hrequest hphase
    exact sound_logs hw hget huser hversion hinsert hjti hid rfl

theorem World.Sound.tables (hw : w.Sound) (hcalls : w'.calls = w.calls) (hissued : w'.issued = w.issued)
    (hhistory : w'.history = w.history) (husers : Grows w.db.users w'.db.users)
    (hsessions : Shrinks w.db.sessions w'.db.sessions)
    (hsame : w'.db.users = w.db.users ∨
      ∃ id, w.accountFree id ∧ ∀ k, k ≠ id → w'.db.users.get k = w.db.users.get k) : w'.Sound ∧ Follows w w' := by
  refine hw.quiet hissued hhistory husers hsessions (fun j c read hj hread => .inl ⟨j, c, hcalls ▸ hj, hread⟩)
    fun j c request hj hrequest hrotating => ?_
  rw [hcalls] at hj
  rcases hsame with hall | ⟨id, hfree, hothers⟩
  · rw [hall]
    exact hw.accounts.locked j c request hj hrequest hrotating
  · exact locked_frame hw.accounts hfree hothers hj hrequest hrotating

theorem sound_revoke (hw : w.Sound) (p : AuthSession → Bool) (now : ℤ) :
    World.Sound { w with db := revokeWhere w.db p now } ∧ Follows w { w with db := revokeWhere w.db p now } :=
  hw.tables rfl rfl rfl (.refl _) (shrinks_revoke w.db p now) (.inl rfl)

theorem sound_invalidate (hw : w.Sound) {isActive mustChangePassword : Bool}
    (h : invalidateUser w id isActive mustChangePassword = some w') : w'.Sound ∧ Follows w w' := by
  unfold invalidateUser at h
  split_ifs at h with hbusy
  have hfree : w.accountFree id := by simpa using hbusy
  split at h
  · cases h
  · rename_i db hbump
    cases h
    obtain ⟨-, hothers, hgrows, hsessions, -⟩ := bumpSessionVersion_ok hbump
    refine hw.tables rfl rfl rfl ?_ ?_ (.inr ⟨id, hfree, fun k hk => ?_⟩)
    · exact hgrows.trans (grows_update _ _ fun _ => Int.le_refl _)
    · show Shrinks w.db.sessions (db.sessions.deleteWhere _)
      rw [hsessions]
      exact shrinks_delete _
    · show (db.users.updateRows _ _ _).get k = _
      rw [get_updateRows, hothers k hk]
      cases hgetk : w.db.users.get k with
      | none => rfl
      | some user => simp [key_of_get hgetk, hk]

theorem sound_deleteUser (hw : w.Sound) (h : deleteUserRow w id = some w') : w'.Sound ∧ Follows w w' := by
  unfold deleteUserRow at h
  split_ifs at h with hbusy
  have hfree : w.accountFree id := by simpa using hbusy
  cases h
  refine hw.tables rfl rfl rfl (grows_delete _ _) (shrinks_delete _) (.inr ⟨id, hfree, fun k hk => ?_⟩)
  show (w.db.users.deleteRows _).get k = _
  rw [get_deleteRows]
  cases hgetk : w.db.users.get k with
  | none => rfl
  | some user => exact filter_some_pos (by simp [key_of_get hgetk, hk])

theorem sound_createUser (hw : w.Sound) {mk : ℕ → User} {hmk : ∀ n, (mk n).id = n} :
    World.Sound { w with db := { w.db with users := w.db.users.insert mk hmk } } ∧
      Follows w { w with db := { w.db with users := w.db.users.insert mk hmk } } := by
  refine hw.quiet rfl rfl (grows_insert _ hmk) .refl (fun j c read hj hread => .inl ⟨j, c, hj, hread⟩)
    fun j c request hj hrequest hrotating => ?_
  obtain ⟨user, hget, hversion⟩ := hw.accounts.locked j c request hj hrequest hrotating
  refine ⟨user, ?_, hversion⟩
  show (w.db.users.insert mk hmk).get request.userId = some user
  have hlt := lt_next_of_get hget
  rw [get_insert, if_neg (by omega)]
  exact hget

/-- **One step.** -/
theorem sound_step {l : Label} (hw : w.Sound) (hguard : NewIdentities w l) (h : step classify w l = some w') :
    w'.Sound ∧ Follows w w' := by
  cases l with
  | start request =>
    simp only [step] at h
    split_ifs at h
    cases h
    have hold : ∀ {j : ℕ} {c : Call}, (w.calls ++ [({ request := request } : Call)])[j]? = some c →
        w.calls[j]? = some c ∨ c = { request := request } := fun hj => Census.of_append hj
    refine hw.quiet rfl rfl (.refl _) .refl (fun j c read hj hread => ?_) fun j c request' hj hrequest' hrotating => ?_
    · rcases hold hj with hj' | rfl
      · exact .inl ⟨j, c, hj', hread⟩
      · cases hread
    · rcases hold hj with hj' | rfl
      · exact hw.accounts.locked j c request' hj' hrequest' hrotating
      · cases hrotating
  | next i clock =>
    obtain ⟨call, hget, hnext⟩ := bind_eq_some_iff.mp h
    exact sound_effect hw hget (newFor_of_guard hget hguard) (next_effect hnext)
  | abort i =>
    simp only [step] at h
    split at h
    · cases h
    · rename_i call hget
      split_ifs at h
      cases h
      refine hw.quiet rfl rfl (.refl _) .refl (fun j c read hj hread => logins_moved hget hj rfl hread)
        fun j c request hj hrequest hrotating => ?_
      rcases Census.of_set hj with ⟨-, rfl⟩ | ⟨-, hold⟩
      · cases hrotating
      · exact hw.accounts.locked j c request hold hrequest hrotating
  | createUser mustChangePassword =>
    cases h
    exact sound_createUser hw
  | deleteUser id => exact sound_deleteUser hw h
  | invalidate id isActive mustChangePassword => exact sound_invalidate hw h
  | logout refreshJti now | revoke userId sessionId now =>
    cases h
    exact sound_revoke hw _ now
  | revokeOthers userId currentRefreshJti now =>
    simp only [step, revokeOtherAuthSessions] at h
    split at h
    · cases h
    · split_ifs at h
      cases h
      exact sound_revoke hw _ now
  | cleanup now =>
    cases h
    exact hw.tables rfl rfl rfl (.refl _) (shrinks_delete _) (.inl rfl)
  | configure passwordLoginEnabled =>
    cases h
    exact hw.tables rfl rfl rfl (.refl _) .refl (.inl rfl)

/-! ### Whole runs -/

theorem World.Initial.sound (h : w₀.Initial) : w₀.Sound := by
  refine ⟨?_, ?_⟩
  · have hrows : ∀ s, s ∉ w₀.db.sessions.rows := fun s hs => by rw [h.sessions] at hs; cases hs
    rw [h.history]
    exact ⟨trivial, nodup_nil, (fun _ hj => nomatch hj), fun s hs => absurd hs (hrows s),
      fun s hs => absurd hs (hrows s), fun s hs => absurd hs (hrows s)⟩
  · refine ⟨?_, ?_, ?_⟩
    · rw [h.issued]
      exact fun _ htoken => nomatch htoken
    all_goals
      rw [h.calls]
      exact fun _ _ _ hj => nomatch hj

theorem Follows.refl (w : World) : Follows w w :=
  ⟨.refl _, fun s hs => .inl ⟨s, hs, rfl, Int.le_refl _⟩, [], rfl, (fun _ _ h => nomatch h)⟩

theorem follows_of_reach (hw : w.Sound) (h : (refreshing classify).Reach NewIdentities w w') :
    w'.Sound ∧ Follows w w' := by
  refine h.induct (I := fun w' => w'.Sound ∧ Follows w w') ⟨hw, .refl w⟩ ?_
  intro w₁ w₂ l hI hguard hstep
  obtain ⟨hsound, hfollows⟩ := sound_step hI.1 hguard hstep
  exact ⟨hsound, hI.2.trans hfollows⟩

theorem effect_logs (h : Effect w i call w') : w'.db.auditLogs = w.db.auditLogs ∨
    ∃ row user, w'.db.auditLogs = row :: w.db.auditLogs ∧ w.db.users.get row.userId = some user ∧
      w'.db.users.get row.userId = some { user with sessionVersion := user.sessionVersion + 1 } := by
  cases h with
  | moves phase hphase | reads user hget | decides request user hrequest hget hversion
  | logs request user sessionVersion now restriction sessions hrequest hphase huser hversion hinsert => exact .inl rfl
  | rejects request reason db hfree hreject =>
    obtain ⟨-, -, -, hsame | ⟨row, user, hlogs, hrow, hget, hget'⟩⟩ := reject_ok hreject
    · exact .inl hsame
    · rw [← hrow] at hget hget'
      exact .inr ⟨row, user, hlogs, hget, hget'⟩
  | rotates request refreshExpiresAt lastSeenAt db hrequest hphase hrotate =>
    obtain ⟨-, rfl⟩ := rotateRefreshFenced_ok hrotate
    exact .inl rfl

theorem detected {l : Label} {row : AuditLog} (h : step classify w l = some w')
    (hlogs : w'.db.auditLogs = row :: w.db.auditLogs) :
    ∃ user, w.db.users.get row.userId = some user ∧
      w'.db.users.get row.userId = some { user with sessionVersion := user.sessionVersion + 1 } := by
  have hgrown : w'.db.auditLogs ≠ w.db.auditLogs := by
    rw [hlogs]
    exact cons_ne_self _ _
  cases l with
  | next i clock =>
    obtain ⟨call, hget, hnext⟩ := bind_eq_some_iff.mp h
    rcases effect_logs (next_effect hnext) with hsame | ⟨row', user, hlogs', hrow⟩
    · exact absurd hsame hgrown
    · obtain ⟨rfl, -⟩ := List.cons.inj (hlogs.symm.trans hlogs')
      exact ⟨user, hrow⟩
  | invalidate id isActive mustChangePassword =>
    simp only [step, invalidateUser] at h
    split_ifs at h
    split at h
    · cases h
    · rename_i db hbump
      obtain ⟨-, -, -, -, hsame⟩ := bumpSessionVersion_ok hbump
      cases h
      exact absurd hsame hgrown
  | deleteUser id =>
    simp only [step, deleteUserRow] at h
    split_ifs at h
    cases h
    exact absurd rfl hgrown
  | start request =>
    simp only [step] at h
    split_ifs at h
    cases h
    exact absurd rfl hgrown
  | abort i =>
    simp only [step] at h
    split at h
    · cases h
    · split_ifs at h
      cases h
      exact absurd rfl hgrown
  | revokeOthers userId currentRefreshJti now =>
    simp only [step, revokeOtherAuthSessions] at h
    split at h
    · cases h
    · split_ifs at h
      cases h
      exact absurd rfl hgrown
  | createUser mustChangePassword | logout refreshJti now | revoke userId sessionId now | cleanup now
  | configure passwordLoginEnabled =>
    cases h
    exact absurd rfl hgrown

theorem seen_le (hw : w.Sound) (h : Follows w w') {s' : AuthSession} (hs : s ∈ w.db.sessions.rows)
    (hs' : s' ∈ w'.db.sessions.rows) (hid : s'.id = s.id) : s.lastSeenAt ≤ s'.lastSeenAt := by
  rcases h.seen s' hs' with ⟨r, hr, hrid, hle⟩ | hfresh
  · obtain rfl : r = s := eq_of_key hr hs (hrid.trans hid)
    exact hle
  · rw [hid] at hfresh
    exact absurd (hw.identities.id_mem hs) hfresh

theorem issued_stale {w₁ : World} {row : AuditLog} (hw : w.Sound) (hget : w.db.users.get row.userId = some user)
    (hget' : w₁.db.users.get row.userId = some { user with sessionVersion := user.sessionVersion + 1 })
    {token : Token} (huser : token.userId = row.userId) (hissued : token ∈ w.issued)
    (hfresh : (∃ user, w₁.db.users.get token.userId = some user ∧ user.sessionVersion ≤ token.sessionVersion) ∨
      w₁.db.users.next ≤ token.userId) : False := by
  obtain ⟨-, hle⟩ := hw.accounts.issued token hissued
  have hold := hle user (huser ▸ hget)
  rcases hfresh with ⟨user', hrow, hversion⟩ | hnone
  · rw [huser, hget'] at hrow
    cases hrow
    have hnew : user.sessionVersion + 1 ≤ token.sessionVersion := hversion
    omega
  · have hlt := lt_next_of_get hget'
    omega

/-- **One chain for a session.** In every run no identity is exchanged twice, and the identities of a session form one
chain whose last two are in its row. From a state on, `last_seen_at` does not decrease, no token is exchanged whose
version is below that of its account in this state, and after a detected reuse none that the account had before. -/
theorem one_chain_for_session (hinitial : w₀.Initial) (h : (refreshing classify).Reach NewIdentities w₀ w) :
    (presented w.history).Nodup ∧ Linked w.history ∧
      (∀ s ∈ w.db.sessions.rows, ∃ rest, chain s.id w.history = s.currentRefreshJti :: rest ∧
        s.previousRefreshJti = rest.head?) ∧
      (∀ w', (refreshing classify).Reach NewIdentities w w' →
        (∀ s ∈ w.db.sessions.rows, ∀ s' ∈ w'.db.sessions.rows, s'.id = s.id → s.lastSeenAt ≤ s'.lastSeenAt) ∧
          ∃ new, w'.history = new ++ w.history ∧ ∀ token nextRefreshJti, .exchanged token nextRefreshJti ∈ new →
            (∃ user, w.db.users.get token.userId = some user ∧ user.sessionVersion ≤ token.sessionVersion) ∨
              w.db.users.next ≤ token.userId) ∧
      ∀ l w₁ row, NewIdentities w l → step classify w l = some w₁ → w₁.db.auditLogs = row :: w.db.auditLogs →
        ∀ w', (refreshing classify).Reach NewIdentities w₁ w' →
          ∃ new, w'.history = new ++ w₁.history ∧ ∀ token nextRefreshJti, .exchanged token nextRefreshJti ∈ new →
            token.userId = row.userId → token ∉ w.issued := by
  have hw := (follows_of_reach hinitial.sound h).1
  refine ⟨hw.identities.once, hw.identities.linked, hw.identities.chains, fun w' h' => ?_, ?_⟩
  · have hfollows := (follows_of_reach hw h').2
    exact ⟨fun s hs s' hs' hid => seen_le hw hfollows hs hs' hid, hfollows.history⟩
  · intro l w₁ row hguard hstep hlogs w' h'
    obtain ⟨user, hget, hget'⟩ := detected hstep hlogs
    have hw₁ := (sound_step hw hguard hstep).1
    obtain ⟨new, hnew, hfresh⟩ := (follows_of_reach hw₁ h').2.history
    refine ⟨new, hnew, fun token nextRefreshJti hmem huser hissued => ?_⟩
    exact issued_stale hw hget hget' huser hissued (hfresh token nextRefreshJti hmem)

/-! ### Sessions that have ended -/

/-- The session for which an identity was put in service. -/
def Event.sessionId : Event → String
  | .created sessionId _ => sessionId
  | .exchanged token _ => token.sessionId

/-- A session that had ended has not come back: its row is revoked or gone, and no identity was put in service for it. -/
structure StaysEnded (sessionId : String) (w w' : World) : Prop where
  revoked : ∀ s ∈ w'.db.sessions.rows, s.id = sessionId → s.revokedAt ≠ none
  history : ∃ new, w'.history = new ++ w.history ∧ ∀ event ∈ new, event.sessionId ≠ sessionId

section Ended

variable {sessionId : String} (hrevoked : ∀ s ∈ w.db.sessions.rows, s.id = sessionId → s.revokedAt ≠ none)
include hrevoked

/-- A step that hands out no identity, and leaves no session in force that was not. -/
theorem staysEnded_quiet (hrows : ∀ s ∈ w'.db.sessions.rows, s.revokedAt = none → s ∈ w.db.sessions.rows)
    (hhistory : w'.history = w.history) : StaysEnded sessionId w w' := by
  refine ⟨fun s hs hid hnone => ?_, [], hhistory, fun _ h => absurd h not_mem_nil⟩
  exact hrevoked s (hrows s hs hnone) hid hnone

theorem staysEnded_revoke (p : AuthSession → Bool) (now : ℤ) :
    StaysEnded sessionId w { w with db := revokeWhere w.db p now } := by
  refine staysEnded_quiet hrevoked (fun s' hs' hnone => ?_) rfl
  simp only [revokeWhere, mem_updateWhere] at hs'
  obtain ⟨s, hs, rfl⟩ := hs'
  split_ifs with hp
  · rw [if_pos hp] at hnone
    cases hnone
  · exact hs

theorem staysEnded_effect (hsession : sessionId ∈ sessionIds w.history) (hnew : NewFor w call) (h : Effect w i call w') :
    StaysEnded sessionId w w' := by
  cases h with
  | moves phase hphase | reads user hget | decides request user hrequest hget hversion =>
    exact staysEnded_quiet hrevoked (fun _ hs _ => hs) rfl
  | rejects request reason db hfree hreject =>
    refine staysEnded_quiet hrevoked (fun s hs _ => ?_) rfl
    unfold DriveRefreshStore.reject at hreject
    split_ifs at hreject
    · split at hreject
      · cases hreject
      · rename_i bumped hbump
        obtain ⟨-, -, -, hsessions, -⟩ := bumpSessionVersion_ok hbump
        split at hreject
        · cases hreject
        · cases hreject
          rw [← hsessions]
          exact (mem_deleteWhere.mp hs).1
    · cases hreject
      exact hs
  | rotates request refreshExpiresAt lastSeenAt db hrequest hphase hrotate =>
    obtain ⟨⟨r, hr, hfence⟩, rfl⟩ := rotateRefreshFenced_ok hrotate
    -- the row that is rotated is in force, so it is not one of this session
    obtain ⟨hid, -, -, hnone, -⟩ := fences_spec hfence
    have hother : request.sessionId ≠ sessionId := fun heq => hrevoked r hr (hid.trans heq) hnone
    refine ⟨fun s hs hsid => ?_, [_], rfl, fun event hmem => ?_⟩
    · rcases mem_rotated hr hfence hs with rfl | ⟨hold, -⟩
      · exact absurd (hid.symm.trans hsid) hother
      · exact hrevoked s hold hsid
    · rw [mem_singleton.mp hmem]
      exact hother
  | logs request user sessionVersion now restriction sessions hrequest hphase huser hversion hinsert =>
    have hother : request.sessionId ≠ sessionId := fun heq => (hnew.login request hrequest hphase).2 (heq ▸ hsession)
    refine ⟨fun s hs hsid => ?_, [_], rfl, fun event hmem => ?_⟩
    · have hrows : s ∈ sessions.rows := hs
      rw [(insertNew_eq_some hinsert).2] at hrows
      rcases mem_append.mp hrows with hold | hnewest
      · exact hrevoked s hold hsid
      · rw [mem_singleton.mp hnewest] at hsid
        exact absurd hsid hother
    · rw [mem_singleton.mp hmem]
      exact hother

theorem staysEnded_step {l : Label} (hsession : sessionId ∈ sessionIds w.history) (hguard : NewIdentities w l)
    (h : step classify w l = some w') : StaysEnded sessionId w w' := by
  cases l with
  | next i clock =>
    obtain ⟨call, hget, hnext⟩ := bind_eq_some_iff.mp h
    exact staysEnded_effect hrevoked hsession (newFor_of_guard hget hguard) (next_effect hnext)
  | start request =>
    simp only [step] at h
    split_ifs at h
    cases h
    exact staysEnded_quiet hrevoked (fun _ hs _ => hs) rfl
  | abort i =>
    simp only [step] at h
    split at h
    · cases h
    · split_ifs at h
      cases h
      exact staysEnded_quiet hrevoked (fun _ hs _ => hs) rfl
  | createUser mustChangePassword | configure passwordLoginEnabled =>
    cases h
    exact staysEnded_quiet hrevoked (fun _ hs _ => hs) rfl
  | deleteUser id =>
    simp only [step, deleteUserRow] at h
    split_ifs at h
    cases h
    exact staysEnded_quiet hrevoked (fun _ hs _ => (mem_deleteWhere.mp hs).1) rfl
  | invalidate id isActive mustChangePassword =>
    simp only [step, invalidateUser] at h
    split_ifs at h
    split at h
    · cases h
    · rename_i db hbump
      obtain ⟨-, -, -, hsessions, -⟩ := bumpSessionVersion_ok hbump
      cases h
      refine staysEnded_quiet hrevoked (fun s hs _ => ?_) rfl
      rw [← hsessions]
      exact (mem_deleteWhere.mp hs).1
  | logout refreshJti now | revoke userId id now =>
    cases h
    exact staysEnded_revoke hrevoked _ now
  | revokeOthers userId currentRefreshJti now =>
    simp only [step, revokeOtherAuthSessions] at h
    split at h
    · cases h
    · split_ifs at h
      cases h
      exact staysEnded_revoke hrevoked _ now
  | cleanup now =>
    cases h
    exact staysEnded_quiet hrevoked (fun _ hs _ => (mem_deleteWhere.mp hs).1) rfl

/-- **A session that has ended stays ended.** Once the row of a session is revoked or gone, in every run from then on no
refresh token of the session is exchanged, and no login creates it anew. -/
theorem ended_session_stays (hsession : sessionId ∈ sessionIds w.history) (h : (refreshing classify).Reach NewIdentities w w') :
    StaysEnded sessionId w w' := by
  refine (h.induct (I := fun w' => sessionId ∈ sessionIds w'.history ∧ StaysEnded sessionId w w')
    ⟨hsession, hrevoked, [], rfl, fun _ h => absurd h not_mem_nil⟩ ?_).2
  intro w1 w2 l hw hguard hstep
  obtain ⟨hin, hrevoked1, early, hearly, hothers⟩ := hw
  obtain ⟨hrevoked2, late, hlate, hothers'⟩ := staysEnded_step hrevoked1 hin hguard hstep
  refine ⟨?_, hrevoked2, late ++ early, ?_, fun event hmem => (mem_append.mp hmem).elim (hothers' event) (hothers event)⟩
  · rw [hlate]
    exact sessionIds_append late w1.history _ hin
  · rw [hlate, hearly, append_assoc]

end Ended

/-! ### A run

A login, two rotations, and the first token once more. -/

def classifyByRow : Classify
  | _, none => .reject .unavailable
  | request, some session =>
    if session.revoked then .reject .unavailable
    else if session.refreshExpiresAt ≤ request.now then .reject .expired
    else if session.currentRefreshJti = request.currentRefreshJti then .rotate
    else if session.previousRefreshJti = some request.currentRefreshJti ∧ session.client = request.client then
      .reject .stale
    else .reject .reuseDetected

def browser : ClientContext := ⟨none, some "browser"⟩

def noLogins : World := ⟨⟨.empty, ⟨[], nodup_nil⟩, []⟩, true, [], [], []⟩

def rotates (currentRefreshJti nextRefreshJti : String) (now : ℤ) : Label :=
  .start (.refresh ⟨1, "s", 1, currentRefreshJti, nextRefreshJti, 1000, .none, browser, now⟩)

def rotatesTwice : List Label :=
  [.createUser false, .start (.login ⟨1, "s", "a", 1000 * nanos, browser⟩), .next 0 0, .next 0 0, rotates "a" "b" 10,
    .next 1 10, .next 1 10, rotates "b" "c" 20, .next 2 20, .next 2 20]

theorem rotatesTwice_run : ((refreshing classifyByRow).run NewIdentities rotatesTwice noLogins).map (fun w =>
    (presented w.history, chain "s" w.history, w.db.sessions.rows.map (·.currentRefreshJti))) =
      some (["b", "a"], ["c", "b", "a"], ["c"]) := by
  decide

example : ((refreshing classifyByRow).run NewIdentities
    (rotatesTwice ++ [rotates "a" "d" 30, .next 3 30]) noLogins).map (fun w =>
      (w.db.auditLogs.map (·.sessionId), w.db.sessions.rows.map (·.id))) = some (["s"], []) := by
  decide

theorem one_chain_for_session_twice : ∃ w, (refreshing classifyByRow).Reach NewIdentities noLogins w ∧
    chain "s" w.history = ["c", "b", "a"] ∧ (presented w.history).Nodup := by
  obtain ⟨w, hrun, hw⟩ := map_eq_some_iff.mp rotatesTwice_run
  have h := Lts.reach_of_run hrun
  exact ⟨w, h, (Prod.mk.inj (Prod.mk.inj hw).2).1, (one_chain_for_session ⟨rfl, rfl, rfl, rfl⟩ h).1⟩

/-- The session of `rotatesTwice` after a logout. -/
def loggedOut : World :=
  ((refreshing classifyByRow).run NewIdentities (rotatesTwice ++ [.logout "c" 30]) noLogins).getD noLogins

theorem ended_session_stays_loggedOut : ∃ w', (refreshing classifyByRow).Reach NewIdentities loggedOut w' ∧
    w'.calls.length = 4 ∧ StaysEnded "s" loggedOut w' := by
  have hcalls : ((refreshing classifyByRow).run NewIdentities [rotates "c" "d" 40, .next 3 40] loggedOut).map (fun w =>
      w.calls.length) = some 4 := by decide
  obtain ⟨w', hrun, hcalls⟩ := map_eq_some_iff.mp hcalls
  have h := Lts.reach_of_run hrun
  exact ⟨w', h, hcalls, ended_session_stays (by decide) (by decide) h⟩

end AsterDrive.Auth.Refresh
