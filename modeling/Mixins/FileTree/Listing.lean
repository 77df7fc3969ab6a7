import Mixins.FileTree.Lookup

/-!
# Listing a file tree

The files below a directory, and the directories below it in the order of a walk: each directory
before the directories in it, and those by name. Neither depends on the order in which the tree
lists its nodes.
-/

namespace Mixins.FileTree

/-- In increasing order. -/
def sorted (names : List String) : List String :=
  names.mergeSort fun a b => decide (a ≤ b)

/-- The location of the directory that a path leads to. -/
def locateDirectory (t : FileTree) (path : Path) : Except SystemError Location := do
  let l ← t.locate path
  if t.find? l = some .directory then .ok l else .error .notDirectory

/-- The names on the way from `l` down to `m`, if `m` lies at or below `l`. -/
def below? (l m : Location) : Option (List String) :=
  if l.isPrefixOf m then some (m.drop l.length) else none

/-- The files at or below a location: the names that lead to each, with slashes between them. -/
def filesBelow (t : FileTree) (l : Location) : List String :=
  sorted <| t.nodes.filterMap fun (m, n) =>
    match n with
    | .file _ => (below? l m).map fun names => "/".intercalate names
    | .directory => none

/-- The files below the directory at the path, sorted. -/
def files (t : FileTree) (path : Path) : Except FileError (List String) :=
  match t.locateDirectory path with
  | .ok l => .ok (t.filesBelow l)
  | .error cause => .error (.list path cause)

/-- The names of the directories in the directory at a location, sorted. -/
def subdirectories (t : FileTree) (l : Location) : List String :=
  sorted <| t.nodes.filterMap fun (m, n) =>
    match n with
    | .file _ => none
    | .directory => if m.dropLast = l then m.getLast? else none

/-- The greatest number of names that lead to a node. -/
def height (t : FileTree) : Nat :=
  t.nodes.foldr (fun e height => max e.1.length height) 0

/-- The directories in the directory `path` at `l` that their paths lead to: a path may have become
too long. -/
def enterable (t : FileTree) (path : Path) (l : Location) : List String :=
  (t.subdirectories l).filter fun name => t.isDirectory (path.join ⟨name⟩)

/-- The directory `path` at `l` and those below it, down to `levels` levels. -/
def walk (t : FileTree) : Nat → Path → Location → List Path
  | 0, path, _ => [path]
  | levels + 1, path, l =>
    path :: (t.enterable path l).flatMap fun name => t.walk levels (path.join ⟨name⟩) (l ++ [name])

/-- The directory at the path, if there is one, and all directories below it. -/
def directories (t : FileTree) (path : Path) : List Path :=
  match t.locateDirectory path with
  | .ok l => t.walk t.height path l
  | .error _ => []

end Mixins.FileTree
