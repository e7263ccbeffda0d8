import Mathlib.Logic.Function.Basic
import AsterDrive.Lib.Lts
import AsterDrive.Sharing.Shares

/-!
# Sharing/ActiveShares — one active share for a file or a folder

`create_share_in_scope` (`share/management.rs`) locks the row of the file or folder, looks for an active
share of it, refuses if there is one that is not expired, deletes it if it has expired since, and inserts the new
share, all in one transaction. A share is active while it has neither expired nor run out of downloads.

The other writers of `shares` do not take that lock. An update of the expiry or of the limit, and the rollback
of a download, can make a share active again that was not when another one was created (`two_active_shares`).
-/

namespace AsterDrive.Sharing

open Function

open Db List Option Function SerialTable

/-- `ShareTarget`. -/
inductive ShareTarget
  | file (id : ℕ)
  | folder (id : ℕ)
  deriving DecidableEq

/-- `ShareTarget::into_ids`. -/
def ShareTarget.intoIds : ShareTarget → Option ℕ × Option ℕ
  | file id => (some id, none)
  | folder id => (none, some id)

/-- The workspace of a share: its team, and without one the user that created it. -/
def Share.workspace (s : Share) : WorkspaceResourceScope :=
  match s.teamId with
  | some teamId => .team teamId
  | none => .personal s.userId

/-- The share points at this file or folder, and at nothing else. -/
def Share.PointsAt (s : Share) (target : ShareTarget) : Prop := (s.fileId, s.folderId) = target.intoIds

/-- What the share points at. -/
def Share.targets (s : Share) : List ShareTarget :=
  (s.fileId.map ShareTarget.file).toList ++ (s.folderId.map ShareTarget.folder).toList

/-- `active_share_condition`. -/
def activeShare (now : ℕ) (s : Share) : Bool := (s.expiresAt = none ∨ ∃ e ∈ s.expiresAt, now ≤ e) ∧ availableDownloads s

/-- The column of the target has its id. -/
def matchesTarget (s : Share) : ShareTarget → Bool
  | .file id => s.fileId = some id
  | .folder id => s.folderId = some id

/-- `find_active_by_resource_in_scope`. -/
def findActiveByResource (t : Shares) (scope : WorkspaceResourceScope) (target : ShareTarget) (now : ℕ) : Option Share :=
  t.rows.find? fun s => s.workspace = scope ∧ activeShare now s ∧ matchesTarget s target

/-- What a request to create a share asks for. -/
structure ShareRequest where
  scope : WorkspaceStorageScope
  expiresAt : Option ℕ
  maxDownloads : ℕ

/-- The user that makes the request. -/
def actorUserId : WorkspaceStorageScope → ℕ
  | .personal userId => userId
  | .team _ actorUserId => actorUserId

/-- The row that `create_share_in_scope` inserts. -/
def ShareRequest.row (request : ShareRequest) (target : ShareTarget) (id : ℕ) : Share :=
  { id, userId := actorUserId request.scope, teamId := request.scope.teamId, fileId := target.intoIds.1
    folderId := target.intoIds.2, expiresAt := request.expiresAt, maxDownloads := request.maxDownloads
    downloadCount := 0 }

/-- How far the transaction that holds the lock on a target is: it has the lock, it has looked for an active share,
or it is about to write (and deletes that share first). -/
inductive CreationPhase
  | locked
  | found (existing : Option Share)
  | cleared (delete : Option ℕ)
  deriving DecidableEq

/-- The transaction that holds the lock on a target. -/
structure Creation where
  request : ShareRequest
  phase : CreationPhase

/-- The shares, the clock, and for every target the transaction that has locked it. -/
structure ShareState where
  shares : Shares
  now : ℕ
  creating : ShareTarget → Option Creation

inductive ShareAct
  | lock (target : ShareTarget) (request : ShareRequest)
  | findActive (target : ShareTarget)
  | recheck (target : ShareTarget)
  | commit (target : ShareTarget)
  | abort (target : ShareTarget)
  | update (id : ℕ) (expiresAt : Option ℕ) (maxDownloads : ℕ)
  | deleteShares (ids : List ℕ)
  | reserve (id : ℕ)
  | rollback (id count : ℕ)
  | tick

/-- The columns that `update_share_in_scope` sets. -/
def updateShare (t : Shares) (id : ℕ) (expiresAt : Option ℕ) (maxDownloads : ℕ) : Shares :=
  t.updateRows (fun s => s.id = id) (fun s => { s with expiresAt, maxDownloads }) fun _ => rfl

/-- The writes of a creation, made visible by its commit. -/
def createShare (t : Shares) (target : ShareTarget) (request : ShareRequest) (delete : Option ℕ) : Shares :=
  (t.deleteRows fun s => s.id ∈ delete).insert (request.row target) fun _ => rfl

/-- A statement, or the commit or rollback of a creation. -/
def stepShares (x : ShareState) : ShareAct → Option ShareState
  | .lock target request =>
    if x.creating target = none then
      some { x with creating := update x.creating target (some ⟨request, .locked⟩) }
    else none
  | .findActive target =>
    match x.creating target with
    | some ⟨request, .locked⟩ =>
      let existing := findActiveByResource x.shares request.scope.resource target x.now
      some { x with creating := update x.creating target (some ⟨request, .found existing⟩) }
    | _ => none
  | .recheck target =>
    match x.creating target with
    | some ⟨request, .found existing⟩ =>
      match existing with
      | none => some { x with creating := update x.creating target (some ⟨request, .cleared none⟩) }
      | some share =>
        if ∃ e ∈ share.expiresAt, e < x.now then
          some { x with creating := update x.creating target (some ⟨request, .cleared (some share.id)⟩) }
        -- "an active share already exists for this resource"
        else some { x with creating := update x.creating target none }
    | _ => none
  | .commit target =>
    match x.creating target with
    | some ⟨request, .cleared delete⟩ =>
      some { x with
        shares := createShare x.shares target request delete
        creating := update x.creating target none }
    | _ => none
  | .abort target => some { x with creating := update x.creating target none }
  | .update id expiresAt maxDownloads => some { x with shares := updateShare x.shares id expiresAt maxDownloads }
  | .deleteShares ids => some { x with shares := x.shares.deleteRows fun s => s.id ∈ ids }
  | .reserve id => some { x with shares := (incrementDownloadCount x.shares id).2 }
  | .rollback id count => some { x with shares := (decrementDownloadCountBy x.shares id count).2 }
  | .tick => some { x with now := x.now + 1 }

def sharesOf : Lts ShareState ShareAct := ⟨stepShares⟩

/-- No shares, and nobody creates one. -/
def ShareState.start : ShareState := { shares := .empty, now := 0, creating := fun _ => none }

/-- The two shares are of one workspace, and of one file or folder. -/
def SameResource (s s' : Share) : Prop := s.workspace = s'.workspace ∧ s.fileId = s'.fileId ∧ s.folderId = s'.folderId

instance (s s' : Share) : Decidable (SameResource s s') := inferInstanceAs (Decidable (_ ∧ _))

/-- Every file and folder has at most one active share of a workspace. -/
def OneActive (x : ShareState) : Prop :=
  ∀ s ∈ x.shares.rows, ∀ s' ∈ x.shares.rows, SameResource s s' → activeShare x.now s → activeShare x.now s' → s = s'

/-- Nothing else is active on the resource of the share, and nobody who is creating a share of it has already
looked. -/
def Free (x : ShareState) (s : Share) : Prop :=
  (∀ s' ∈ x.shares.rows, SameResource s s' → activeShare x.now s' → s' = s) ∧
    ∀ target ∈ s.targets, ∀ c ∈ x.creating target, c.request.scope.resource = s.workspace → c.phase = .locked

/-- An update or a rollback that makes a share active again finds its resource free. -/
def Reviving (x : ShareState) : ShareAct → Prop
  | .update id expiresAt maxDownloads =>
    ∀ s ∈ x.shares.rows, s.id = id → activeShare x.now s = false →
      activeShare x.now { s with expiresAt, maxDownloads } → Free x s
  | .rollback id count =>
    ∀ s ∈ x.shares.rows, s.id = id → activeShare x.now s = false →
      activeShare x.now { s with downloadCount := loweredCount s.downloadCount count } → Free x s
  | _ => True

instance (x : ShareState) (s : Share) : Decidable (Free x s) := inferInstanceAs (Decidable (_ ∧ _))

instance (x : ShareState) (a : ShareAct) : Decidable (Reviving x a) := by
  unfold Reviving
  split <;> infer_instance

/-! ### The invariant -/

section

variable {x x' : ShareState} {a : ShareAct} {s s' : Share} {target target' : ShareTarget} {now : ℕ}

theorem Share.PointsAt.matches_iff (h : s.PointsAt target) : matchesTarget s target' ↔ target' = target := by
  cases target with
  | file id =>
    obtain ⟨hfile, hfolder⟩ := Prod.mk.inj h
    cases target' with
    | file id' => simp [matchesTarget, hfile, eq_comm]
    | folder id' => simp [matchesTarget, hfolder]
  | folder id =>
    obtain ⟨hfile, hfolder⟩ := Prod.mk.inj h
    cases target' with
    | file id' => simp [matchesTarget, hfile]
    | folder id' => simp [matchesTarget, hfolder, eq_comm]

theorem Share.PointsAt.targets (h : s.PointsAt target) : s.targets = [target] := by
  unfold Share.targets
  cases target with
  | file id | folder id =>
    obtain ⟨hfile, hfolder⟩ := Prod.mk.inj h
    rw [hfile, hfolder]
    rfl

theorem Share.PointsAt.same (h : s.PointsAt target) (h' : s'.PointsAt target) (hw : s.workspace = s'.workspace) :
    SameResource s s' := by
  obtain ⟨hfile, hfolder⟩ := Prod.mk.inj (h.trans h'.symm)
  exact ⟨hw, hfile, hfolder⟩

theorem SameResource.symm (h : SameResource s s') : SameResource s' s := ⟨h.1.symm, h.2.1.symm, h.2.2.symm⟩

theorem SameResource.pointsAt (h : SameResource s s') (hs : s.PointsAt target) : s'.PointsAt target := by
  unfold Share.PointsAt at hs ⊢
  rw [← h.2.1, ← h.2.2]
  exact hs

theorem activeShare_iff : activeShare now s ↔ (∀ e ∈ s.expiresAt, now ≤ e) ∧ availableDownloads s := by
  unfold activeShare
  cases hexp : s.expiresAt with
  | none | some e => simp

theorem activeShare_of_later (h : activeShare (now + 1) s) : activeShare now s := by
  obtain ⟨hexp, hav⟩ := (activeShare_iff).mp h
  exact (activeShare_iff).mpr ⟨fun e he => Nat.le_of_succ_le (hexp e he), hav⟩

/-- The active shares of the resource that a creation works on: the one it has found, the one it will delete. -/
def Creation.Covers (c : Creation) (s : Share) : Prop :=
  match c.phase with
  | .locked => True
  | .found existing => ∃ e ∈ existing, e.id = s.id
  | .cleared delete => s.id ∈ delete

/-- Every share points at one thing, no resource has two active shares, and a creation that has looked knows every
active share of its resource. -/
structure Lone (x : ShareState) : Prop where
  points : ∀ s ∈ x.shares.rows, ∃ target, s.PointsAt target
  one : OneActive x
  known : ∀ target c, x.creating target = some c → ∀ s ∈ x.shares.rows, s.PointsAt target →
    s.workspace = c.request.scope.resource → activeShare x.now s → c.Covers s

theorem Lone.start : Lone .start where
  points := fun s hs => by cases hs
  one := fun s hs => by cases hs
  known := fun target c hc => by cases hc

theorem Lone.phase (h : Lone x) (next : Option Creation)
    (hknown : ∀ c ∈ next, ∀ s ∈ x.shares.rows, s.PointsAt target → s.workspace = c.request.scope.resource →
      activeShare x.now s → c.Covers s) :
    Lone { x with creating := update x.creating target next } where
  points := h.points
  one := h.one
  known := by
    intro k c hc
    replace hc : update x.creating target next k = some c := hc
    by_cases hk : k = target
    · subst hk
      rw [update_self] at hc
      exact hknown c hc
    · rw [update_of_ne hk] at hc
      exact h.known k c hc

theorem Lone.fewer {shares : Shares} (h : Lone x)
    (hsub : ∀ s' ∈ shares.rows, ∃ s ∈ x.shares.rows, s'.id = s.id ∧ SameResource s s' ∧
      (activeShare x.now s' → activeShare x.now s)) :
    Lone { x with shares } where
  points := by
    intro s' hs'
    obtain ⟨s, hs, -, hsame, -⟩ := hsub s' hs'
    obtain ⟨target, htarget⟩ := h.points s hs
    exact ⟨target, hsame.pointsAt htarget⟩
  one := by
    intro s' hs' r' hr' hsame hact hact'
    obtain ⟨s, hs, hid, hss, hactive⟩ := hsub s' hs'
    obtain ⟨r, hr, hid', hrr, hactive'⟩ := hsub r' hr'
    have hsr : SameResource s r := by
      refine ⟨hss.1.trans (hsame.1.trans hrr.1.symm), hss.2.1.trans (hsame.2.1.trans hrr.2.1.symm),
        hss.2.2.trans (hsame.2.2.trans hrr.2.2.symm)⟩
    obtain rfl := h.one s hs r hr hsr (hactive hact) (hactive' hact')
    exact Table.eq_of_key hs' hr' (hid.trans hid'.symm)
  known := by
    intro target c hc s' hs' hpoints hw hact
    obtain ⟨s, hs, hid, hss, hactive⟩ := hsub s' hs'
    have hcovers := h.known target c hc s hs (hss.symm.pointsAt hpoints) (hss.1.trans hw) (hactive hact)
    unfold Creation.Covers at hcovers ⊢
    rw [hid]
    exact hcovers

/-- Statements that change one share and leave what it points at: if they make it active, its resource is free. -/
theorem Lone.revised {id : ℕ} {p : Share → Bool} {f : Share → Share} {hf : ∀ s, (f s).id = s.id} (h : Lone x)
    (hp : ∀ s, p s → s.id = id) (hsame : ∀ s, SameResource s (f s))
    (hfree : ∀ s ∈ x.shares.rows, p s → activeShare x.now s = false → activeShare x.now (f s) → Free x s) :
    Lone { x with shares := x.shares.updateRows p f hf } where
  points := by
    intro s' hs'
    obtain ⟨s, hs, rfl⟩ := mem_updateRows.mp hs'
    obtain ⟨target, htarget⟩ := h.points s hs
    refine ⟨target, ?_⟩
    split_ifs
    · exact (hsame s).pointsAt htarget
    · exact htarget
  one := by
    intro s' hs' r' hr' hres hact hact'
    have hkey : s'.id = r'.id := by
      obtain ⟨s, hs, rfl⟩ := mem_updateRows.mp hs'
      obtain ⟨r, hr, rfl⟩ := mem_updateRows.mp hr'
      have hid : ∀ y : Share, (if p y then f y else y).id = y.id := by
        intro y
        split_ifs
        · exact hf y
        · rfl
      have hkeep : ∀ y : Share, SameResource y (if p y then f y else y) := by
        intro y
        split_ifs
        · exact hsame y
        · exact ⟨rfl, rfl, rfl⟩
      have hsr : SameResource s r := by
        obtain ⟨h1, h2, h3⟩ := hkeep s
        obtain ⟨k1, k2, k3⟩ := hkeep r
        exact ⟨h1.trans (hres.1.trans k1.symm), h2.trans (hres.2.1.trans k2.symm), h3.trans (hres.2.2.trans k3.symm)⟩
      -- a share that the statement revives was free, so the other one is the same
      have hrevived : ∀ y ∈ x.shares.rows, activeShare x.now (if p y then f y else y) → activeShare x.now y = false →
          p y ∧ Free x y := by
        intro y hy hnow hbefore
        split_ifs at hnow with hpy
        · exact ⟨hpy, hfree y hy hpy hbefore hnow⟩
        · rw [hbefore] at hnow
          cases hnow
      rw [hid, hid]
      cases hs0 : activeShare x.now s with
      | true =>
        cases hr0 : activeShare x.now r with
        | true => rw [h.one s hs r hr hsr hs0 hr0]
        | false => rw [(hrevived r hr hact' hr0).2.1 s hs hsr.symm hs0]
      | false =>
        obtain ⟨hps, hsfree⟩ := hrevived s hs hact hs0
        cases hr0 : activeShare x.now r with
        | true => rw [hsfree.1 r hr hsr hr0]
        | false => exact (hp s hps).trans (hp r (hrevived r hr hact' hr0).1).symm
    exact Table.eq_of_key hs' hr' hkey
  known := by
    intro target c hc s' hs' hpoints hw hact
    obtain ⟨s, hs, rfl⟩ := mem_updateRows.mp hs'
    split_ifs at hpoints hw hact ⊢ with hps
    · have hpoints0 : s.PointsAt target := (hsame s).symm.pointsAt hpoints
      have hw0 : s.workspace = c.request.scope.resource := (hsame s).1.trans hw
      cases hs0 : activeShare x.now s with
      | true =>
        have hcovers := h.known target c hc s hs hpoints0 hw0 hs0
        unfold Creation.Covers at hcovers ⊢
        rw [hf]
        exact hcovers
      | false =>
        have hlocked := (hfree s hs hps hs0 hact).2 target (by rw [hpoints0.targets]; exact mem_singleton_self _) c hc
          hw0.symm
        unfold Creation.Covers
        rw [hlocked]
        trivial
    · exact h.known target c hc s hs hpoints hw hact

theorem ShareRequest.workspace_row (request : ShareRequest) (target : ShareTarget) (id : ℕ) :
    (request.row target id).workspace = request.scope.resource := by
  unfold ShareRequest.row Share.workspace
  cases request.scope <;> rfl

theorem mem_createShare {t : Shares} {request : ShareRequest} {delete : Option ℕ} :
    s ∈ (createShare t target request delete).rows ↔ (s ∈ t.rows ∧ s.id ∉ delete) ∨ s = request.row target t.next := by
  refine mem_insert.trans (or_congr ?_ Iff.rfl)
  show s ∈ (t.toTable.deleteWhere fun s => decide (s.id ∈ delete)).rows ↔ _
  rw [Table.mem_deleteWhere, decide_eq_false_iff_not]

theorem Lone.create {request : ShareRequest} {delete : Option ℕ} (h : Lone x)
    (hc : x.creating target = some ⟨request, .cleared delete⟩) :
    Lone { x with
      shares := createShare x.shares target request delete
      creating := update x.creating target none } := by
  have hnew : (request.row target x.shares.next).PointsAt target := rfl
  -- the shares that stay on the resource are not active
  have hidle : ∀ s ∈ x.shares.rows, s.id ∉ delete → s.PointsAt target → s.workspace = request.scope.resource →
      ¬ activeShare x.now s := by
    intro s hs hkept hpoints hw hact
    exact hkept (h.known target _ hc s hs hpoints hw hact)
  constructor
  · intro s hs
    rcases (mem_createShare).mp hs with ⟨hold, -⟩ | rfl
    · exact h.points s hold
    · exact ⟨target, hnew⟩
  · intro s hs s' hs' hsame hact hact'
    rcases (mem_createShare).mp hs with ⟨hold, hkept⟩ | rfl
    · rcases (mem_createShare).mp hs' with ⟨hold', -⟩ | rfl
      · exact h.one s hold s' hold' hsame hact hact'
      · refine absurd hact (hidle s hold hkept (hsame.symm.pointsAt hnew) ?_)
        exact hsame.1.trans (request.workspace_row target x.shares.next)
    · rcases (mem_createShare).mp hs' with ⟨hold', hkept'⟩ | rfl
      · refine absurd hact' (hidle s' hold' hkept' (hsame.pointsAt hnew) ?_)
        exact hsame.1.symm.trans (request.workspace_row target x.shares.next)
      · rfl
  · intro k c hck s hs hpoints hw hact
    replace hck : update x.creating target none k = some c := hck
    have hk : k ≠ target := by
      rintro rfl
      rw [update_self] at hck
      cases hck
    rw [update_of_ne hk] at hck
    rcases (mem_createShare).mp hs with ⟨hold, -⟩ | rfl
    · exact h.known k c hck s hold hpoints hw hact
    · exact absurd (hpoints.matches_iff.mp (hnew.matches_iff.mpr rfl)).symm hk

theorem Lone.findActive {request : ShareRequest} (h : Lone x) : Lone { x with
      creating := update x.creating target
        (some ⟨request, .found (findActiveByResource x.shares request.scope.resource target x.now)⟩) } := by
  refine h.phase _ ?_
  rintro c hceq s hs hpoints hw hact
  cases hceq
  have hmatch : matchesTarget s target = true := hpoints.matches_iff.mpr rfl
  have hhit : (fun s : Share => decide (s.workspace = request.scope.resource ∧ activeShare x.now s ∧
      matchesTarget s target)) s = true := decide_eq_true ⟨hw, hact, hmatch⟩
  cases hfind : findActiveByResource x.shares request.scope.resource target x.now with
  | none =>
    exact absurd hhit (find?_eq_none.mp hfind s hs)
  | some e =>
    have he := find?_some hfind
    rw [decide_eq_true_eq] at he
    have hemem := mem_of_find?_eq_some hfind
    obtain ⟨targetOfE, hpointsE⟩ := h.points e hemem
    obtain rfl := hpointsE.matches_iff.mp he.2.2
    have hsame : SameResource e s := hpointsE.same hpoints (he.1.trans hw.symm)
    obtain rfl := h.one e hemem s hs hsame he.2.1 hact
    exact ⟨e, rfl, rfl⟩

theorem Lone.recheck {request : ShareRequest} {existing : Option Share} (h : Lone x)
    (hc : x.creating target = some ⟨request, .found existing⟩) (hstep : stepShares x (.recheck target) = some x') :
    Lone x' := by
  simp only [stepShares, hc] at hstep
  have hknown := h.known target _ hc
  cases existing with
  | none =>
    cases hstep
    refine h.phase _ ?_
    rintro c hceq s hs hpoints hw hact
    cases hceq
    obtain ⟨e, he, -⟩ := hknown s hs hpoints hw hact
    cases he
  | some e =>
    dsimp only at hstep
    split_ifs at hstep
    · cases hstep
      refine h.phase _ ?_
      rintro c hceq s hs hpoints hw hact
      cases hceq
      obtain ⟨e', he', hid⟩ := hknown s hs hpoints hw hact
      cases he'
      exact congrArg some hid
    · cases hstep
      exact h.phase none fun c hceq => by cases hceq

theorem Lone.step (h : Lone x) (hguard : Reviving x a) (hstep : stepShares x a = some x') : Lone x' := by
  cases a with simp only [stepShares] at hstep
  | lock target request =>
    split_ifs at hstep
    cases hstep
    refine h.phase _ ?_
    rintro c hceq s - - - -
    cases hceq
    trivial
  | findActive target =>
    split at hstep
    next =>
      cases hstep
      exact h.findActive
    next => cases hstep
  | recheck target =>
    cases hc : x.creating target with
    | none =>
      simp only [stepShares, hc] at hstep
      cases hstep
    | some c =>
      obtain ⟨request, phase⟩ := c
      cases phase with
      | found existing => exact h.recheck hc hstep
      | locked | cleared delete => simp [stepShares, hc] at hstep
  | commit target =>
    split at hstep
    next request delete hc =>
      cases hstep
      exact h.create hc
    next => cases hstep
  | abort target =>
    cases hstep
    exact h.phase none fun c hceq => by cases hceq
  | update id expiresAt maxDownloads =>
    cases hstep
    refine h.revised (fun s hs => of_decide_eq_true hs) (fun _ => ⟨rfl, rfl, rfl⟩) ?_
    intro s hs hid hbefore hafter
    exact hguard s hs (of_decide_eq_true hid) hbefore hafter
  | deleteShares ids =>
    cases hstep
    refine h.fewer ?_
    intro s hs
    exact ⟨s, (Table.mem_deleteWhere.mp hs).1, rfl, ⟨rfl, rfl, rfl⟩, id⟩
  | reserve id =>
    cases hstep
    refine h.fewer ?_
    intro s' hs'
    obtain ⟨s, hs, rfl⟩ := mem_updateRows.mp hs'
    split_ifs with hp
    · refine ⟨s, hs, rfl, ⟨rfl, rfl, rfl⟩, fun hact => ?_⟩
      obtain ⟨hexp, -⟩ := activeShare_iff.mp hact
      exact activeShare_iff.mpr ⟨hexp, (of_decide_eq_true hp).2⟩
    · exact ⟨s, hs, rfl, ⟨rfl, rfl, rfl⟩, fun hact => hact⟩
  | rollback id count =>
    cases hstep
    unfold decrementDownloadCountBy
    split_ifs with hcount
    · exact h
    · refine h.revised (fun s hs => (of_decide_eq_true hs).1) (fun _ => ⟨rfl, rfl, rfl⟩) ?_
      intro s hs hp hbefore hafter
      exact hguard s hs (of_decide_eq_true hp).1 hbefore hafter
  | tick =>
    cases hstep
    refine ⟨h.points, ?_, ?_⟩
    · intro s hs s' hs' hsame hact hact'
      exact h.one s hs s' hs' hsame (activeShare_of_later hact) (activeShare_of_later hact')
    · intro target c hc s hs hpoints hw hact
      exact h.known target c hc s hs hpoints hw (activeShare_of_later hact)

end

/-- **One active share.** In every run in which no update and no rollback revives a share whose resource has got
another one, or is about to. -/
theorem one_active_share (x : ShareState) (h : Lts.Reach sharesOf Reviving .start x) : OneActive x := by
  have hlone : Lone x := h.induct (I := Lone) Lone.start fun hx hg hstep => hx.step hg hstep
  exact hlone.one

/-- One download, no expiry. -/
def sampleRequest : ShareRequest := ⟨.personal 1, none, 1⟩

/-- A share of file 5 is created. -/
def createSample : List ShareAct :=
  [.lock (.file 5) sampleRequest, .findActive (.file 5), .recheck (.file 5), .commit (.file 5)]

/-- The first share is used up before a second one is created. -/
theorem one_active_share_again :
    ∃ x, Lts.Reach sharesOf Reviving .start x ∧ x.shares.rows.length = 2 ∧ OneActive x := by
  have hrun : (sharesOf.run Reviving (createSample ++ [.reserve 1] ++ createSample) .start).map
      (fun x => x.shares.rows.length) = some 2 := by
    decide
  obtain ⟨x, hrun, hx⟩ := map_eq_some_iff.mp hrun
  have hreach := Lts.reach_of_run hrun
  exact ⟨x, hreach, hx, one_active_share x hreach⟩

/-- The download that used up the first share is rolled back after the second one was created. -/
theorem two_active_shares :
    ∃ x s s', Lts.Reach sharesOf Lts.free .start x ∧ s ∈ x.shares.rows ∧ s' ∈ x.shares.rows ∧ s ≠ s' ∧
      SameResource s s' ∧ activeShare x.now s ∧ activeShare x.now s' := by
  have hrun : (sharesOf.run Lts.free (createSample ++ [.reserve 1] ++ createSample ++ [.rollback 1 1]) .start).map
      (fun x => (x.now, x.shares.rows)) = some (0, [sampleRequest.row (.file 5) 1, sampleRequest.row (.file 5) 2]) := by
    decide
  obtain ⟨x, hrun, hnow, hrows⟩ := map_pair_eq_some hrun
  refine ⟨x, sampleRequest.row (.file 5) 1, sampleRequest.row (.file 5) 2, Lts.reach_of_run hrun, ?_, ?_, by decide,
    by decide, ?_, ?_⟩
  · rw [hrows]
    simp
  · rw [hrows]
    simp
  · rw [hnow]
    decide
  · rw [hnow]
    decide

end AsterDrive.Sharing
