import Mixins.FileTree.Change
import Mixins.Layout
import Mixins.Wire.TypeFile

/-!
# The output root

The directory whose type files are replaced by merged ones.
-/

namespace Mixins

structure OutputRoot where
  dir : Path
  deriving DecidableEq, Repr, Inhabited

namespace OutputRoot

def pathFor (root : OutputRoot) (name : String) : Path := Layout.fileIn root.dir name

/-- The directory of a namespace. -/
def namespaceDir (root : OutputRoot) (name : String) : Path := Layout.namespaceDir root.dir name

/-- Replaces the file of an outermost type in a file system, and tells its path. -/
def writeTo {σ : Type} (fs : FileSystem σ) (root : OutputRoot) (s : σ) (t : TypeDef) :
    σ × Except Failure Path :=
  if !Name.isOutermost t.name then (s, .error (.malformed t.name .notOutermost))
  else
    let path := root.pathFor t.name
    match t.toBytes with
    | .error cause => (s, .error cause)
    | .ok content =>
      match fs.replace s path content with
      | (s, .error cause) => (s, .error (.file path cause))
      | (s, .ok ()) => (s, .ok path)

/-- Replaces the file of an outermost type in a file tree. -/
def write (root : OutputRoot) (files : FileTree) (t : TypeDef) : FileTree × Except Failure Path :=
  root.writeTo (FileTree.system none) files t

def read (root : OutputRoot) (files : FileTree) (name : String) : Except Failure TypeDef :=
  let path := root.pathFor name
  match files.read path with
  | .ok content => TypeDef.ofBytes content path.text
  | .error .notFound => .error (.notFound name)
  | .error cause => .error (.file path (.system cause))

end OutputRoot

end Mixins
