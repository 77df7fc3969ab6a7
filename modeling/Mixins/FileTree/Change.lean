import Mixins.FileSystem
import Mixins.FileTree.Lookup

/-!
# Changing a file tree

`putFile`, `createDirectory` and `moveFile` either succeed or change nothing. A `write` for which
there is not room enough fails as well, but leaves the file with what there was room for.

A file tree is a file system with these operations: `system`. It has no links, and each of its files
has one name.
-/

namespace Mixins.FileTree

open Utf8 (Bytes)

def orElse (cause : SystemError) : Option FileTree → Except SystemError FileTree
  | some t => .ok t
  | none => .error cause

/-- Puts a file with the given content at the path, instead of the file that may be there. -/
def putFile (t : FileTree) (path : Path) (content : Bytes) : Except SystemError FileTree := do
  match ← t.ending path with
  | .fixed | .name _ true => .error .isDirectory
  | .name l false =>
    if nameTooLong l then .error .nameTooLong
    else if t.find? l = some .directory then .error .isDirectory
    else orElse .notDirectory (t.put? l (.file content))

def createDirectory (t : FileTree) (path : Path) : Except SystemError FileTree := do
  match ← t.ending path with
  | .fixed => .error .exists
  | .name l _ =>
    if nameTooLong l then .error .nameTooLong
    else if t.find? l ≠ none then .error .exists
    else orElse .notDirectory (t.put? l .directory)

/-- Moves the file at `source` to `destination`, over the file that may be there. -/
def moveFile (t : FileTree) (source destination : Path) : Except SystemError FileTree := do
  match ← t.ending source, ← t.ending destination with
  | .name l slash, .name m slash' =>
    if nameTooLong l then .error .nameTooLong
    else
      match t.find? l with
      | none => .error .notFound
      | some .directory => .error .isDirectory
      | some (.file content) =>
        if nameTooLong m then .error .nameTooLong
        else if slash || slash' then .error .notDirectory
        else if t.find? m = some .directory then .error .isDirectory
        else if m = l then .ok t
        else (orElse .notDirectory (t.put? m (.file content))).map (·.erase l)
  | _, _ => .error .busy

/-- The path and the directories above it, the path first. -/
def withParents (path : Path) : List Path :=
  go (path.components.length + 1) path
where
  /-- Each parent has fewer components. -/
  go : Nat → Path → List Path
    | 0, _ => []
    | n + 1, path => path :: (path.parent?.map (go n)).getD []

/-- Creates the first of the directories, and before it those of the others that it needs. -/
def createAll (t : FileTree) : List Path → FileTree × Except SystemError Unit
  | [] => (t, .error .notFound)
  | path :: above =>
    if path = Path.empty then (t, .ok ())
    else
      match t.createDirectory path with
      | .ok t => (t, .ok ())
      | .error .notFound =>
        match t.createAll above with
        | (t, .error cause) => (t, .error cause)
        | (t, .ok ()) => settle t path (t.createDirectory path)
      | .error cause => settle t path (.error cause)
where
  /-- That a directory is there already is as good as creating it. -/
  settle (t : FileTree) (path : Path) :
      Except SystemError FileTree → FileTree × Except SystemError Unit
    | .ok t => (t, .ok ())
    | .error cause => (t, if t.isDirectory path then .ok () else .error cause)

/-- An operation that changes nothing when it fails. -/
def attempt (t : FileTree) : Except SystemError FileTree → FileTree × Except SystemError Unit
  | .ok t => (t, .ok ())
  | .error cause => (t, .error cause)

/-- Writes the file at the path. If there is room for some bytes only, the file ends after those,
and the write has failed. -/
def write (room : Option Nat) (t : FileTree) (path : Path) (content : Bytes) :
    FileTree × Except SystemError Unit :=
  let kept := content.take (room.getD content.length)
  match t.putFile path kept with
  | .error cause => (t, .error cause)
  | .ok t => (t, if kept = content then .ok () else .error .noSpace)

/-- The operations of a file tree, with room for so many bytes in a file if there is a limit. -/
def system (room : Option Nat) : FileSystem FileTree where
  createAll t path := t.createAll (withParents path)
  write := write room
  moveFile t source destination := t.attempt (t.moveFile source destination)

/-- Creates the directory that holds the path. -/
def createParents (t : FileTree) (path : Path) : FileTree × Except FileError Unit :=
  (system none).createParents t path

/-- Replaces the file at the path as a whole, creating the directories above it. -/
def replace (t : FileTree) (path : Path) (content : Bytes) : FileTree × Except FileError Unit :=
  (system none).replace t path content

/-- Removes what the path leads to, a directory with everything in it. -/
def remove (t : FileTree) (path : Path) : Except SystemError FileTree :=
  (t.locate path).map t.removeAll

/-- Sets the time of modification of the file at the path. -/
def setModified (t : FileTree) (path : Path) (time : Int64) : FileTree :=
  match t.locate path with
  | .ok l => { t with times := (l, time) :: t.times.filter (·.1 ≠ l) }
  | .error _ => t

end Mixins.FileTree
