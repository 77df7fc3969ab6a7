import Mixins.Archive
import Mixins.Instant

/-!
# Library descriptors

What a module archive says about the library in it: name and version from the project description,
the model version from the end of its group, and the time of the last update from the manifest.

The description is searched as text, up to its dependencies. An element counts only if it stands on
one line; of several on a line the content reaches to the last closing tag.

Principal statements: `generalPart_of_before` — what follows the dependencies' tag is not looked at.
-/

namespace Mixins

structure Descriptor where
  name : String
  version : String
  lastUpdate : Int64
  modelVersion : String
  deriving DecidableEq, Repr, Inhabited

namespace Descriptor

def defaultGroup : String := "org.typeweave.libraries."

/-- The ending of the path of a project description. -/
def projectEnding : String := "pom.xml"

/-- What stands for an element that is not there. -/
def unknown : String := "unknown"

/-- Why an archive describes no library. -/
inductive Error where
  | noProject
  | noManifest
  deriving DecidableEq, Repr, Inhabited

def Error.message : Error → String
  | .noProject => "no " ++ projectEnding ++ " entry in module archive"
  | .noManifest => "no " ++ Archive.manifestPath ++ " entry in module archive"

/-! ## Reading -/

def dependenciesTag : List Char := "<dependencies>".toList

/-- The text up to the dependencies. -/
def generalPart (text : List Char) : List Char :=
  match Text.before dependenciesTag text with
  | some (head, _) => head
  | none => text

/-- The content of the first element that is opened and closed on one line. -/
def element? (opening closing : List Char) : List Char → Option (List Char)
  | [] => none
  | c :: text =>
    match (Text.dropWord opening (c :: text)).bind
      fun rest => Text.beforeLast closing (rest.takeWhile (· ≠ '\n')) with
    | some content => some content
    | none => element? opening closing text

/-- The content of an element, of which the given words stand right after the opening tag. -/
def content (text : List Char) (tag : String) (start : String) : String :=
  let found := element? ("<" ++ tag ++ ">" ++ start).toList ("</" ++ tag ++ ">").toList text
  (found.map String.ofList).getD unknown

/-- The descriptor of the library in an archive. The model version is what follows `group` in the
project's group. -/
def ofArchive (group : String) (archive : Archive) : Except Error Descriptor :=
  match archive.entryEndingIn? projectEnding, archive.find? Archive.manifestPath with
  | none, _ => .error .noProject
  | some _, none => .error .noManifest
  | some project, some manifest =>
    let text := generalPart (Utf8.decodeLossy project.content).toList
    .ok
      { name := content text "artifactId" ""
        version := content text "version" ""
        lastUpdate := manifest.modified
        modelVersion := content text "groupId" group }

theorem generalPart_of_before {text head rest : List Char}
    (h : Text.before dependenciesTag text = some (head, rest)) : generalPart text = head := by
  simp [generalPart, h]

/-! ## Using -/

/-- Whether two descriptors are of the same update of the same library. -/
def sameUpdate (a b : Descriptor) : Bool :=
  a.name == b.name && a.version == b.version && a.lastUpdate == b.lastUpdate

/-- Whether `b` is a later update of the same version. -/
def outdatedBy (a b : Descriptor) : Bool :=
  a.name == b.name && a.version == b.version && a.lastUpdate < b.lastUpdate

def display (d : Descriptor) : String :=
  "(" ++ d.name ++ "-" ++ d.version ++ ",t=" ++ toString d.lastUpdate.toInt ++ ")"

/-- The time of the last update, as date and time of day. -/
def lastUpdateText? (d : Descriptor) : Option String := Instant.text? d.lastUpdate.toInt

end Descriptor

end Mixins
