import Mixins.FileSystem
import Mixins.FileTree

/-!
# Following paths

A path is followed name by name from the root or from the directory in which relative paths start.
Each step is taken in a directory; a single dot stays there and two dots go up. A slash at the end
asks for a directory.

Some operations need no node at the end of the path, only the place where one may be put: `Ending`.
-/

namespace Mixins.FileTree

open Utf8 (Bytes)

/-- A path may have this many bytes. -/
def maxPathSize : Nat := 4095

/-- The names in a path's text; slashes may be repeated. -/
def names (path : Path) : List String :=
  ((path.text.toList.splitOn '/').filter (· ≠ [])).map String.ofList

def endsInSlash (path : Path) : Bool :=
  path.text.toList.getLast? == some '/'

/-- Refuses texts that are no path at all. -/
def checkText (path : Path) : Except SystemError Unit :=
  if path.text.toList.contains '\x00' then .error .nulInPath
  else if path.text = "" then .error .notFound
  else if maxPathSize < path.text.utf8ByteSize then .error .nameTooLong
  else .ok ()

/-- Where a path starts. -/
def base (t : FileTree) (path : Path) : Location :=
  if path.isAbsolute then [] else t.start

/-- Goes from a location to the one that `name` means there. -/
def step (t : FileTree) (l : Location) (name : String) : Except SystemError Location :=
  if t.find? l ≠ some .directory then .error .notDirectory
  else if name = "." then .ok l
  else if name = ".." then .ok l.dropLast
  else if maxNameSize < name.utf8ByteSize then .error .nameTooLong
  else if t.find? (l ++ [name]) = none then .error .notFound
  else .ok (l ++ [name])

/-- The location of the node that a path leads to. -/
def locate (t : FileTree) (path : Path) : Except SystemError Location := do
  checkText path
  let l ← (names path).foldlM t.step (t.base path)
  if endsInSlash path && t.find? l ≠ some .directory then .error .notDirectory else .ok l

/-- How a path ends: in a name, which need not be taken and after which a slash may stand; or in a
dot, two dots or the root. -/
inductive Ending where
  | name (location : Location) (slash : Bool)
  | fixed
  deriving DecidableEq, Repr

/-- Follows a path up to its last name. -/
def ending (t : FileTree) (path : Path) : Except SystemError Ending := do
  checkText path
  match (names path).getLast? with
  | none => .ok .fixed
  | some last =>
    let l ← (names path).dropLast.foldlM t.step (t.base path)
    if t.find? l ≠ some .directory then .error .notDirectory
    else if last = "." || last = ".." then .ok .fixed
    else .ok (.name (l ++ [last]) (endsInSlash path))

/-- Whether the last name of a location is too long to be looked up. -/
def nameTooLong (l : Location) : Bool :=
  maxNameSize < (l.getLast?.getD "").utf8ByteSize

def isDirectory (t : FileTree) (path : Path) : Bool :=
  match t.locate path with
  | .ok l => t.find? l == some .directory
  | .error _ => false

def isFile (t : FileTree) (path : Path) : Bool :=
  match t.locate path with
  | .ok l => t.find? l != some .directory
  | .error _ => false

def read (t : FileTree) (path : Path) : Except SystemError Bytes := do
  match t.find? (← t.locate path) with
  | some (.file content) => .ok content
  | some .directory => .error .isDirectory
  | none => .error .notFound

/-- The text in a file. -/
def readText (t : FileTree) (path : Path) : Except SystemError String := do
  match Utf8.decode? (← t.read path) with
  | some text => .ok text
  | none => .error .notText

/-- When a file was modified, in milliseconds since 1970; 0 if there is no file, or for earlier
times. -/
def modified (t : FileTree) (path : Path) : Int64 :=
  match t.locate path with
  | .ok l => max 0 ((t.times.lookup l).getD 0)
  | .error _ => 0

end Mixins.FileTree
