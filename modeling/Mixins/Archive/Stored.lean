import Mixins.Archive
import Mixins.FileTree.Change
import Mixins.FileTree.Listing

/-!
# Archives in files

Reading and writing archive files, and packing the files of a directory into an archive: one entry
for each, in the order of their paths.
-/

namespace Mixins.Archive

open FileTree

/-- Why an archive could not be read, packed or written. -/
inductive StoreError where
  | read (path : Path) (cause : SystemError)
  | decode (path : Path) (cause : FormatError)
  | list (cause : FileError)
  | readMember (path : Path) (cause : SystemError)
  | encode (cause : FormatError)
  | replace (cause : FileError)
  deriving DecidableEq, Repr, Inhabited

/-- What happened, followed by what it was due to. -/
def StoreError.chain : StoreError → List String
  | .read path cause => ["read archive " ++ path.text, cause.message]
  | .decode path cause => ["decode archive " ++ path.text, cause.message]
  | .list cause => [cause.message]
  | .readMember path cause => ["read " ++ path.text, cause.message]
  | .encode cause => [cause.message]
  | .replace cause => [cause.message]

def read (files : FileTree) (path : Path) : Except StoreError Archive := do
  let content ← (files.read path).mapError (.read path)
  (ofBytes content).mapError (.decode path)

def write (a : Archive) (files : FileTree) (path : Path) : FileTree × Except StoreError Unit :=
  match a.toBytes with
  | .error cause => (files, .error (.encode cause))
  | .ok content =>
    let (files, done) := files.replace path content
    (files, done.mapError .replace)

/-- Adds the file at `dir` and `relative` under the path `relative`. -/
def addFile (files : FileTree) (dir : Path) (a : Archive) (relative : String) :
    Except StoreError Archive := do
  let path := dir.join ⟨relative⟩
  let content ← (files.read path).mapError (.readMember path)
  return a.add relative (files.modified path) content

/-- The files below a directory as an archive. -/
def ofDirectory (files : FileTree) (dir : Path) : Except StoreError Archive := do
  let paths ← (files.files dir).mapError .list
  paths.foldlM (addFile files dir) empty

end Mixins.Archive
