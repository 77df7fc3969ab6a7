import Mixins.Name
import Mixins.Path

/-!
# Where types are kept

A module keeps each outermost type in one file; the packages are its directories. In an archive the
file is found by its entry path, the name with slashes for dots; below a directory it is found by a
path built from the name's segments.
-/

namespace Mixins.Layout

open Mixins.Text

def extension : String := "ctype"

/-- The archive entry that holds the type. -/
def entryPath (name : String) : String :=
  String.ofList ((Name.outermost name).toList.map fun c => if c = '.' then '/' else c)
    ++ "." ++ extension

/-- The file that holds the type, relative to a module's directory. -/
def filePath (name : String) : Path :=
  (((Name.outermost name).toList.splitOn '.').foldl
    (fun path segment => path.join ⟨String.ofList segment⟩) Path.empty).setExtension extension

/-- The file that holds the type below the directory `root`. -/
def fileIn (root : Path) (name : String) : Path :=
  root.join (filePath name)

/-- The type kept under an entry path, if type files are named so. -/
def nameOfEntry (path : String) : Option String :=
  (dropWordEnd ('.' :: extension.toList) (path.toList.dropWhile (· = '/'))).bind fun stem =>
    if stem = [] then none
    else some (String.ofList (stem.map fun c => if c = '/' then '.' else c))

/-- The package whose types lie in `dir`, for a module in `root`. -/
def packageOf (root dir : Path) : Option String :=
  (root.below? dir).map fun components => ".".intercalate (components.map Path.Component.text)

/-- The directory of a namespace below `root`; empty segments do not count. -/
def namespaceDir (root : Path) (name : String) : Path :=
  ((name.toList.splitOn '.').filter (· ≠ [])).foldl
    (fun dir segment => dir.join ⟨String.ofList segment⟩) root

end Mixins.Layout
