/-!
# Paths

A path is a text of components that slashes separate. Two texts can name the same components:
slashes may be repeated or stand at the end, and a single dot counts only at the very front. The
text itself is kept, because messages show it.

A path has three parts: its lead (`/`, or a dot at the front), and a body of pieces of which the
empty ones and the single dots are idle. Parent, file name and extension are read off the last piece
that is not idle.
-/

namespace Mixins

structure Path where
  text : String
  deriving DecidableEq, Repr, Inhabited

namespace Path

inductive Component where
  | root
  | current
  | parent
  | name (text : String)
  deriving DecidableEq, Repr

def Component.text : Component → String
  | .root => "/"
  | .current => "."
  | .parent => ".."
  | .name text => text

def empty : Path := ⟨""⟩

def isAbsolute (path : Path) : Bool :=
  path.text.toList.head? == some '/'

/-- `other` below `path`. An absolute path replaces what it is appended to; a slash is put between
the two unless `path` is empty or ends in one. -/
def join (path other : Path) : Path :=
  if other.isAbsolute then other
  else if path.text = "" || path.text.toList.getLast? == some '/' then ⟨path.text ++ other.text⟩
  else ⟨path.text ++ "/" ++ other.text⟩

/-- The lead of a path and the pieces of its body. -/
def parts (path : Path) : List Char × List (List Char) :=
  match path.text.toList with
  | '/' :: body => (['/'], body.splitOn '/')
  | ['.'] => (['.'], [])
  | '.' :: '/' :: body => (['.'], [] :: body.splitOn '/')
  | body => ([], body.splitOn '/')

def ofParts (lead : List Char) (pieces : List (List Char)) : Path :=
  ⟨String.ofList (lead ++ ['/'].intercalate pieces)⟩

/-- A piece that names no component. -/
def isIdle (piece : List Char) : Bool :=
  piece == [] || piece == ['.']

def componentOf (piece : List Char) : Component :=
  if piece = ['.', '.'] then .parent else .name (String.ofList piece)

def leadComponents : List Char → List Component
  | ['/'] => [.root]
  | ['.'] => [.current]
  | _ => []

def components (path : Path) : List Component :=
  let (lead, pieces) := path.parts
  leadComponents lead ++ (pieces.filter (!isIdle ·)).map componentOf

/-- Whether two paths have the same components. -/
def sameAs (path other : Path) : Bool :=
  path.components == other.components

/-- The components of `path` below `base`, if it lies below `base` or is the same. -/
def below? (base path : Path) : Option (List Component) :=
  let start := base.components
  if start.isPrefixOf path.components then some (path.components.drop start.length) else none

/-- The last piece that names a component, and the pieces before it. -/
def lastPiece? (pieces : List (List Char)) : Option (List (List Char) × List Char) :=
  match pieces.reverse.dropWhile isIdle with
  | [] => none
  | last :: earlier => some (earlier.reverse, last)

/-- The path without its last component; none for the empty path and for the root. -/
def parent? (path : Path) : Option Path :=
  let (lead, pieces) := path.parts
  match lastPiece? pieces with
  | some (earlier, _) => some (ofParts lead (earlier.reverse.dropWhile isIdle).reverse)
  | none => if lead = ['.'] then some empty else none

def fileName? (path : Path) : Option (List Char) :=
  match lastPiece? path.parts.2 with
  | some (_, last) => if last = ['.', '.'] then none else some last
  | none => none

/-- A file name before and after its last dot. A dot at the very front starts no extension. -/
def splitExtension (name : List Char) : List Char × Option (List Char) :=
  let tail := name.reverse.takeWhile (· ≠ '.')
  let stem := name.take (name.length - tail.length - 1)
  if tail.length = name.length || stem = [] then (name, none) else (stem, some tail.reverse)

def extension? (path : Path) : Option String :=
  path.fileName?.bind fun name => (splitExtension name).2.map String.ofList

/-- The path with `extension` after the stem of its file name, in place of an extension it may have;
unchanged if it has no file name. -/
def setExtension (path : Path) (extension : String) : Path :=
  let (lead, pieces) := path.parts
  match path.fileName?, lastPiece? pieces with
  | some name, some (earlier, _) =>
    let ending := if extension = "" then [] else '.' :: extension.toList
    ofParts lead (earlier ++ [(splitExtension name).1 ++ ending])
  | _, _ => path

/-- The path with another extension on its file name. As many characters as the old extension has
are cut off the end of the text first: where the stem is a single dot and nothing follows the file
name, what is left leads to the parent directory, has no file name and takes no extension. -/
def withExtension (path : Path) (extension : String) : Path :=
  match path.extension? with
  | some old =>
    let kept := path.text.toList.take (path.text.length - old.length)
    setExtension ⟨String.ofList kept⟩ extension
  | none => path.setExtension extension

/-- Where the content of a file is written before it is moved into place. -/
def temporary (path : Path) : Path :=
  path.withExtension (path.extension?.getD "tmp" ++ ".tmp")

end Path

end Mixins
