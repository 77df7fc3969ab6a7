import Mixins.Archive.Stored
import Mixins.Layout
import Mixins.Wire.TypeFile

/-!
# Modules and classpaths

A module is a directory or an archive with type files. It decodes a type file once and then
remembers the type, even if the file changes later. A classpath is modules in the order in which a
type is looked for: the first that has it answers.
-/

namespace Mixins

open Utf8 (Bytes)

inductive Module.Source where
  | directory (root : Path)
  | archive (path : Path) (content : Archive)
  deriving DecidableEq, Repr, Inhabited

structure Module where
  source : Module.Source
  /-- The outermost types that were decoded, by name. -/
  known : List (String × TypeDef)
  deriving DecidableEq, Inhabited

namespace Module

namespace Source

/-- The module at a path, if there is one. -/
def open? (files : FileTree) (path : Path) : Option Source :=
  if files.isDirectory path then some (.directory path)
  else if files.isFile path then ((Archive.read files path).toOption).map (.archive path)
  else none

def path : Source → Path
  | .directory root => root
  | .archive path _ => path

/-- The content of the file that holds the type, if the module has one. -/
def typeBytes? (files : FileTree) (name : String) : Source → Except Failure (Option Bytes)
  | .directory root =>
    let path := Layout.fileIn root name
    match files.read path with
    | .ok content => .ok (some content)
    | .error .notFound => .ok none
    | .error cause => .error (.file path (.system cause))
  | .archive _ content => .ok ((content.find? (Layout.entryPath name)).map (·.content))

/-- The names of the types that have a file, sorted. -/
def typeNames (files : FileTree) : Source → Except FileError (List String)
  | .directory root => do
    return FileTree.sorted ((← files.files root).filterMap Layout.nameOfEntry)
  | .archive _ content =>
    .ok (FileTree.sorted (content.entries.filterMap fun e => Layout.nameOfEntry e.path))

/-- How an error names the file that holds the type. -/
def context (s : Source) (name : String) : String :=
  s.path.text ++ ":" ++ Layout.entryPath name

end Source

def ofSource (source : Source) : Module := ⟨source, []⟩

def label (m : Module) : String := m.source.path.text

/-- Reads the type file of an outermost type. The file must declare that very type. -/
def readOutermost? (files : FileTree) (source : Source) (outer : String) :
    Except Failure (Option TypeDef) := do
  match ← source.typeBytes? files outer with
  | none => return none
  | some content =>
    let context := source.context outer
    let t ← TypeDef.ofBytes content context
    if t.name = outer then return some t
    else .error (.malformed context (.otherName t.name outer))

/-- The outermost type around the one named, if the module has its file; and the module that
remembers it. -/
def loadOutermost? (files : FileTree) (m : Module) (name : String) :
    Except Failure (Option TypeDef) × Module :=
  let outer := Name.outermost name
  match m.known.lookup outer with
  | some t => (.ok (some t), m)
  | none =>
    match readOutermost? files m.source outer with
    | .ok (some t) => (.ok (some t), { m with known := (outer, t) :: m.known })
    | other => (other, m)

def load (files : FileTree) (m : Module) (name : String) : Except Failure TypeDef × Module :=
  match m.loadOutermost? files name with
  | (.error cause, m) => (.error cause, m)
  | (.ok found, m) =>
    match found.bind (·.descendant? (Name.chain name)) with
    | some t => (.ok t, m)
    | none => (.error (.notFound name), m)

end Module

/-! ## Classpaths -/

abbrev Classpath := List Module

namespace Classpath

/-- The modules at the paths; a path without a module is passed over. -/
def ofPaths (files : FileTree) (paths : List Path) : Classpath :=
  (paths.filterMap (Module.Source.open? files)).map Module.ofSource

def sources (classpath : Classpath) : List Module.Source := classpath.map Module.source

/-- The type of the given name in the first module that has it. A type file that cannot be read ends
the search. -/
def load (files : FileTree) (name : String) : Classpath → Except Failure TypeDef × Classpath
  | [] => (.error (.notFound name), [])
  | m :: rest =>
    match m.load files name with
    | (.ok t, m) => (.ok t, m :: rest)
    | (.error cause, m) =>
      if cause.isNotFound then
        let (found, rest) := load files name rest
        (found, m :: rest)
      else (.error cause, m :: rest)

end Classpath

end Mixins
