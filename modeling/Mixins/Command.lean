import Mixins.Archive.Stored
import Mixins.Descriptor
import Mixins.Failure
import Mixins.Settings

/-!
# Commands

What the command line can be asked to do, and why it may not succeed.
-/

namespace Mixins

inductive Command where
  | merge (out : Path) (classpath : List Path) (config : Option Path) (space : Option String)
      (strict : Bool)
  | pack (dir archive : Path) (manifestTime : Option Int64)
  | describe (archive : Path) (group : String)
  | inspect (path : Path) (typeName : Option String)
  | assemble (source out : Path)
  deriving DecidableEq, Repr, Inhabited

/-- A command, and whether its answer is wanted as JSON. -/
structure Invocation where
  command : Command
  json : Bool
  deriving DecidableEq, Repr, Inhabited

namespace Command

inductive Error where
  | noOutputRoot (path : Path)
  | settings (cause : Settings.FileError)
  | mergesFailed (count : Nat)
  | notDirectory (path : Path)
  | archive (cause : Archive.StoreError)
  | writeArchive (path : Path) (cause : Archive.StoreError)
  | describe (path : Path) (cause : Descriptor.Error)
  | read (path : Path) (cause : SystemError)
  | notInArchive (name : String) (path : Path)
  | notDeclaredIn (name outer : String)
  | noSuchNested (name : String)
  | parse
  | nestedType (name : String)
  | failure (cause : Failure)
  | file (cause : FileError)
  deriving DecidableEq, Repr, Inhabited

namespace Error

/-- What happened, followed by what it was due to. -/
def chain : Error → List String
  | .noOutputRoot path => ["output root " ++ path.text ++ " is not a directory"]
  | .settings cause => [cause.message]
  | .mergesFailed count => [toString count ++ " targets or union types failed"]
  | .notDirectory path => [path.text ++ " is not a directory"]
  | .archive cause => cause.chain
  | .writeArchive path cause => ("write archive " ++ path.text) :: cause.chain
  | .describe path cause => ["describe " ++ path.text, cause.message]
  | .read path cause => ["read " ++ path.text, cause.message]
  | .notInArchive name path => [name ++ " not found in " ++ path.text]
  | .notDeclaredIn name outer => [name ++ " is not declared in " ++ outer]
  | .noSuchNested name => [name ++ " not found"]
  | .parse => ["Failed to parse type JSON"]
  | .nestedType name => [name ++ " is a nested type; assemble its outermost type instead"]
  | .failure cause => [cause.message]
  | .file cause => [cause.message]

/-- A text of several lines, of which all but the first are indented. -/
def indented (width : Nat) (text : String) : String :=
  String.ofList (text.toList.flatMap fun c =>
    if c = '\n' then c :: List.replicate width ' ' else [c])

/-- A cause under its number, which ends in the fifth column. -/
def numbered (n : Nat) (cause : String) : String :=
  let digits := toString n
  String.ofList (List.replicate (5 - digits.length) ' ') ++ digits ++ ": " ++ indented 7 cause

def causes : List String → String
  | [] => ""
  | [cause] => "\n\nCaused by:\n    " ++ indented 4 cause
  | several =>
    "\n\nCaused by:" ++ String.join (several.mapIdx fun n cause => "\n" ++ numbered n cause)

/-- How the error is reported: what happened, and the causes below it. -/
def report (e : Error) : String :=
  "Error: " ++ e.chain.headD "" ++ causes e.chain.tail

end Error

end Command

end Mixins
