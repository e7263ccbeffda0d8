import AsterDrive.Files.Tree
import AsterDrive.Lib.Separated

/-!
# PathResolver — from WebDAV paths to rows

`webdav/backend/path_resolver`. A path is cut at its slashes, empty segments are dropped, and the
segments are looked up one after the other below the root of the mount: as folders as long as possible,
and the last one as a file if it is no folder. A mount is a folder of the workspace, or the workspace
itself.

Personal folders are looked up by their exact name, except on MySQL; team folders and all files also
under the normalized name.
-/

namespace AsterDrive.Webdav

open Db Files

inductive DbBackend
  | sqlite | postgres | mySql

/-- `FsError`, as far as it is built here. -/
inductive FsError
  | notFound | forbidden | generalFailure
  deriving DecidableEq

/-- `ResolvedNode`. -/
inductive ResolvedNode
  | root
  | folder (folder : Folder)
  | file (file : File)
  deriving DecidableEq

/-- A request path: its text, and what repeated calls of `parent()` give, the nearest first. -/
structure DavPath where
  asStr : String
  parents : List String
  deriving DecidableEq

/-- `parent()`. -/
def DavPath.parent (p : DavPath) : Option DavPath :=
  match p.parents with
  | [] => none
  | s :: rest => some { asStr := s, parents := rest }

/-- `path_segments`. -/
def pathSegments (path : String) : List String := (Separated.words '/' path.toList).map String.ofList

section

variable (backend : DbBackend) (normalizeName : String → String)

/-- The folder of a name in one parent, as the chain is resolved. -/
def findChildFolder (t : Folders) (scope : WorkspaceStorageScope) (parentId : Option ℕ) (name : String) :
    Option Folder :=
  match scope, backend with
  | .personal _, .sqlite | .personal _, .postgres =>
    t.rows.find? fun f => folderMatchesScope f scope.resource && f.deletedAt.isNone &&
      decide (f.parentId = parentId) && decide (f.name = name)
  | _, _ => findFolderByNameInScope normalizeName t scope.resource parentId name

/-- `resolve_folder_chain`: the folders that the segments name, until one of them is missing. -/
def resolveFolderChain (t : Folders) (scope : WorkspaceStorageScope) : Option ℕ → List String → List Folder
  | _, [] => []
  | parentId, segment :: rest =>
    match findChildFolder backend normalizeName t scope parentId segment with
    | none => []
    | some folder => folder :: resolveFolderChain t scope (some folder.id) rest

/-- The folder that a chain ends in, and the root of the mount for the empty chain. -/
def chainEnd (rootFolderId : Option ℕ) (folders : List Folder) : Option ℕ :=
  (folders.getLast?.map Folder.id).or rootFolderId

/-- `resolve_path_in_scope`. -/
def resolvePathInScope (t : Tree) (scope : WorkspaceStorageScope) (rootFolderId : Option ℕ) (path : String) :
    Except FsError ResolvedNode :=
  let segments := pathSegments path
  let folders := resolveFolderChain backend normalizeName t.folders scope rootFolderId segments
  match segments.getLast? with
  | none => .ok .root
  | some last =>
    if folders.length = segments.length then
      folders.getLast?.elim (.error .notFound) fun folder => .ok (.folder folder)
    else if folders.length + 1 < segments.length then .error .notFound
    else
      match findFileByNameInScope normalizeName t.files scope.resource (chainEnd rootFolderId folders) last with
      | some file => .ok (.file file)
      | none => .error .notFound

/-- `resolve_parent_in_scope`: the folder in which the last segment lies, or would lie. -/
def resolveParentInScope (t : Tree) (scope : WorkspaceStorageScope) (rootFolderId : Option ℕ)
    (path : String) : Except FsError (Option ℕ × String) :=
  let segments := pathSegments path
  match segments.getLast? with
  | none => .error .forbidden
  | some last =>
    let parents := segments.dropLast
    let folders := resolveFolderChain backend normalizeName t.folders scope rootFolderId parents
    if folders.length ≠ parents.length then .error .notFound
    else .ok (chainEnd rootFolderId folders, last)

end

end AsterDrive.Webdav
