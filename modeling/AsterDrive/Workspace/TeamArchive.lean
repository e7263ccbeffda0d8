import AsterDrive.Lib.Keyset
import AsterDrive.Workspace.BlobCleanup

/-!
# TeamArchive — teams that are archived, restored and purged

`services/workspace/team/archive.rs` as a state machine. A pass reads the archived teams whose retention is over. For
each it deletes the objects of the team's upload sessions, purges its files page by page, and deletes what is left with
the team in one transaction, the only one that looks at the archived state again. Passes of several nodes run side by
side, with archives and restores, uploads, copies and blob cleanups between any two of their steps.

Folders, shares, locks and WebDAV accounts of a team are left out, as are the caches. Files that are still there when
their team goes lose `team_id` and `folder_id` by the foreign keys (`ON DELETE SET NULL`).
-/

namespace AsterDrive.TeamArchive

open Db

/-! ### The tables -/

/-- `team::Model`; quota and usage are the team's row in `Db.usage`. -/
structure Team where
  id : ℕ
  archivedAt : Option ℕ := none

/-- `upload_session::Model`: what the purge of a team reads of it. -/
structure TeamSession where
  id : String
  teamId : Option ℕ
  policyId : ℕ
  objectTempKey : Option String
  objectMultipartId : Option String := none
  deriving DecidableEq

structure World where
  db : Db
  teams : Table Team.id
  sessions : Table TeamSession.id
  /-- The blob cleanups under way, each with the pass that waits for it. -/
  cleanups : List (Option ℕ × Cleanup) := []

/-! ### Archive and restore -/

namespace World

variable (x : World)

def setArchived (teamId : ℕ) (archivedAt : Option ℕ) : World :=
  let usage := x.db.usage.updateWhere (fun u => u.scope = .team teamId)
    (fun u => { u with archived := archivedAt.isSome }) fun _ => rfl
  { x with db := { x.db with usage }
           teams := x.teams.updateWhere (fun t => t.id = teamId) (fun t => { t with archivedAt }) fun _ => rfl }

/-- `archive_team_record`: an update by id. -/
def archive (teamId now : ℕ) : World := x.setArchived teamId (some now)

/-- `restore_team_record` -/
def restore (teamId : ℕ) : World := x.setArchived teamId none

end World

/-! ### The statements of a pass -/

/-- `find_archived_before`, by archive time and id. -/
def findArchivedBefore (teams : Table Team.id) (before : ℕ) : List Team :=
  (teams.rows.filter fun t => t.archivedAt.any fun time => time < before).insertionSort fun a b =>
    a.archivedAt.getD 0 < b.archivedAt.getD 0 ∨ a.archivedAt.getD 0 = b.archivedAt.getD 0 ∧ a.id ≤ b.id

/-- `upload_session_repo::find_by_team` -/
def findSessionsByTeam (sessions : Table TeamSession.id) (teamId : ℕ) : List TeamSession :=
  sessions.rows.filter fun s => s.teamId = some teamId

def teamArchiveBatchSize : ℕ := 1000

/-- `find_all_by_team_paginated` -/
def findAllByTeam (db : Db) (teamId : ℕ) (after : Option ℕ) : List File :=
  Keyset.page File.id after teamArchiveBatchSize (db.files.rows.filter fun f => f.teamId = some teamId)

/-- `lock_archived_by_id` -/
def lockArchivedById (teams : Table Team.id) (teamId : ℕ) : Except AsterError Team :=
  match (teams.get teamId).filter fun t => t.archivedAt.isSome with
  | some team => .ok team
  | none => .error (recordNotFound ("team #" ++ toString teamId))

/-- The files that are left lose their team. -/
def detachFiles (files : Files) (teamId : ℕ) : Files :=
  files.updateRows (fun f => f.teamId = some teamId) (fun f => { f with teamId := none, folderId := none }) fun _ => rfl

/-- `idx_files_unique_live_name` holds. -/
def namesUnique (files : Files) : Bool :=
  ∀ f ∈ files.rows, ∀ g ∈ files.rows, f.liveName.isSome = true → f.liveName = g.liveName → f.id = g.id

/-- The last transaction of `force_delete_archived_team`. -/
def deleteArchivedTeam (x : World) (teamId : ℕ) : Except AsterError World := do
  let _ ← lockArchivedById x.teams teamId
  let files := detachFiles x.db.files teamId
  if namesUnique files then
    .ok { x with
      db := { x.db with files, usage := x.db.usage.deleteWhere fun u => u.scope = .team teamId }
      teams := x.teams.deleteWhere fun t => t.id = teamId
      sessions := x.sessions.deleteWhere fun s => s.teamId = some teamId }
  else .error (databaseError "UNIQUE constraint failed: idx_files_unique_live_name")

/-! ### Where a pass stands -/

inductive Phase
  | idle
  | findSessions
  /-- The policy and its driver are looked up. -/
  | resolve (session : TeamSession) (key : String) (rest : List TeamSession)
  | abort (session : TeamSession) (key : String) (rest : List TeamSession)
  | delete (session : TeamSession) (key : String) (rest : List TeamSession)
  /-- The delete has failed: does the object exist? -/
  | verify (session : TeamSession) (key : String) (rest : List TeamSession)
  | list
  | purge (files : List File)
  /-- The page is purged, and its blobs are cleaned up. -/
  | settle
  | finish
  deriving DecidableEq

/-- A pass: the expired teams that are left, the current one first. -/
structure Worker where
  teams : List Team := []
  afterFileId : Option ℕ := none
  /-- No cleanup of a session has failed. -/
  complete : Bool := true
  phase : Phase := .idle

/-- How a step ends. -/
inductive Act
  | start (before : ℕ)
  | ok
  | fails
  /-- The object is absent. -/
  | absent
  | crash

namespace Worker

def goto (w : Worker) (phase : Phase) : Worker := { w with phase }

/-- The first of the teams. -/
def ofTeams : List Team → Worker
  | [] => {}
  | team :: teams => { teams := team :: teams, phase := .findSessions }

/-- A failure is logged, and the pass goes on with the next team. -/
def nextTeam (w : Worker) : Worker := ofTeams w.teams.tail

/-- The next session that has an object; after the last one the files. -/
def nextSession (w : Worker) : List TeamSession → Worker
  | [] => if w.complete then w.goto .list else w.nextTeam
  | s :: rest =>
    match s.objectTempKey with
    | none => w.nextSession rest
    | some key => w.goto (.resolve s key rest)

/-- The cleanup of a session is incomplete. -/
def incomplete (w : Worker) (rest : List TeamSession) : Worker := { w with complete := false }.nextSession rest

end Worker

/-- The statement or call that is next, carried out for a team. `supportsMultipart` is of a policy's driver. -/
def proceed (supportsMultipart : ℕ → Bool) (self : ℕ) (x : World) (w : Worker) (team : Team) : Act → Option (World × Worker)
  | .ok =>
    match w.phase with
    | .idle => none
    | .findSessions => some (x, w.nextSession (findSessionsByTeam x.sessions team.id))
    | .resolve s key rest =>
      some (x, w.goto (if s.objectMultipartId.isSome ∧ supportsMultipart s.policyId then .abort s key rest
        else .delete s key rest))
    | .abort s key rest => some (x, w.goto (.delete s key rest))
    | .delete _ _ rest => some (x, w.nextSession rest)
    | .verify _ _ rest => some (x, w.incomplete rest)
    | .list =>
      match findAllByTeam x.db team.id w.afterFileId with
      | [] => some (x, w.goto .finish)
      | f :: fs => some (x, { w with afterFileId := (f :: fs).getLast?.map File.id, phase := .purge (f :: fs) })
    | .purge files =>
      match purgeFilesOn (.team team.id) files x.db with
      | .error _ => some (x, w.nextTeam)
      | .ok (ids, db) =>
        let cleanups := (heldBlobs x.db ids).map fun k => (some self, Cleanup.find k)
        some ({ x with db, cleanups := x.cleanups ++ cleanups }, w.goto .settle)
    | .settle => if x.cleanups.any fun e => e.1 = some self then none else some (x, w.goto .list)
    | .finish =>
      match deleteArchivedTeam x team.id with
      | .error _ => some (x, w.nextTeam)
      | .ok x' => some (x', w.nextTeam)
  | .fails =>
    match w.phase with
    | .idle | .settle => none
    | .resolve _ _ rest | .abort _ _ rest | .verify _ _ rest => some (x, w.incomplete rest)
    | .delete s key rest => some (x, w.goto (.verify s key rest))
    | .findSessions | .list | .purge _ | .finish => some (x, w.nextTeam)
  | .absent =>
    match w.phase with
    | .verify _ _ rest => some (x, w.nextSession rest)
    | _ => none
  | .start _ | .crash => none

/-- A step of the pass with the number `self`. -/
def step (supportsMultipart : ℕ → Bool) (self : ℕ) (x : World) (w : Worker) : Act → Option (World × Worker)
  | .start before => if w.phase = .idle then some (x, .ofTeams (findArchivedBefore x.teams before)) else none
  | .crash => some (x, {})
  | a =>
    match w.teams with
    | [] => none
    | team :: _ => proceed supportsMultipart self x w team a

end AsterDrive.TeamArchive
