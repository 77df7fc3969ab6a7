import Mixins.FileTree.Lookup
import Mixins.Json.Parser
import Mixins.Json.Reader

/-!
# Settings

Which packages take part in a merge, and by which names the special types are known. Settings are
read from a JSON file, in which every field may be missing, and then overlaid with environment
variables.
-/

namespace Mixins

/-! ## Environment variables -/

/-- Values by name. A value is bytes; one that is not UTF-8 counts as not set. -/
abbrev Environment := List (String × Utf8.Bytes)

namespace Environment

def value? (env : Environment) (name : String) : Option String :=
  (env.lookup name).bind Utf8.decode?

/-- The value without blanks around it, unless nothing is left. -/
def text? (env : Environment) (name : String) : Option String :=
  (env.value? name).bind fun value =>
    let text := Text.trim value
    if text = "" then none else some text

/-- Whether the value is one of the words that stand for yes, in any case. -/
def flag (env : Environment) (name : String) : Bool :=
  match env.value? name with
  | none => false
  | some value => ["1", "true", "yes", "on"].contains (Text.trim value).toLower

/-- The items of a value, separated by commas; blank items do not count. -/
def list (env : Environment) (name : String) : List String :=
  match env.value? name with
  | none => []
  | some value =>
    ((value.toList.splitOn ',').map fun item => Text.trim (String.ofList item)).filter (· ≠ "")

end Environment

/-! ## Settings -/

structure Settings where
  /-- The namespace whose packages are searched. -/
  namespaceName : String
  /-- The marker of a library package. -/
  rootMarker : String
  /-- The marker of a mixin. -/
  mixinMarker : String
  /-- The simple name of the interface of string types. -/
  stringTypes : String
  /-- The types of which every module may have a part. -/
  unions : List String
  deriving DecidableEq, Repr, Inhabited

namespace Settings

def default : Settings :=
  { namespaceName := "def"
    rootMarker := "typeweave.lang.Root"
    mixinMarker := "typeweave.lang.Mixin"
    stringTypes := "StringTypes"
    unions := ["typeweave.util.StringTypes"] }

/-! ## Reading -/

def fieldNames : List String :=
  ["namespace", "root_marker", "mixin_marker", "string_types_interface", "builtin_unions"]

/-- The value of a field that may be missing. -/
def fieldOr {α : Type} (missing : α) (read? : Json → Option α) : Option Json → Option α
  | none => some missing
  | some j => read? j

def ofJson? : Json.Reader Settings := fun depth j => do
  let (depth, [space, rootMarker, mixinMarker, stringTypes, unions]) ←
    Json.record? fieldNames 0 depth j | none
  return {
    namespaceName := ← fieldOr default.namespaceName Json.string? space
    rootMarker := ← fieldOr default.rootMarker Json.string? rootMarker
    mixinMarker := ← fieldOr default.mixinMarker Json.string? mixinMarker
    stringTypes := ← fieldOr default.stringTypes Json.string? stringTypes
    unions := ← fieldOr default.unions (Json.list? (fun _ => Json.string?) depth) unions }

def parse? (text : String) : Option Settings :=
  (Json.parse? text).bind (ofJson? Json.maxDepth)

/-- Why a file has no settings. -/
inductive FileError where
  | read (path : Path) (cause : SystemError)
  | parse (path : Path)
  deriving DecidableEq, Repr, Inhabited

def FileError.message : FileError → String
  | .read path cause => "Failed to read config " ++ path.text ++ ": " ++ cause.message
  | .parse path => "Failed to parse config " ++ path.text

def ofFile (files : FileTree) (path : Path) : Except FileError Settings := do
  let text ← (files.readText path).mapError (.read path)
  match parse? text with
  | some settings => .ok settings
  | none => .error (.parse path)

/-! ## Overlaying -/

/-- The settings with those fields replaced that the environment sets. -/
def overlaid (settings : Settings) (env : Environment) : Settings :=
  let unions := env.list "TYPEWEAVE_BUILTIN_UNIONS"
  { settings with
    namespaceName := (env.text? "TYPEWEAVE_NAMESPACE").getD settings.namespaceName
    rootMarker := (env.text? "TYPEWEAVE_ROOT_MARKER").getD settings.rootMarker
    mixinMarker := (env.text? "TYPEWEAVE_MIXIN_MARKER").getD settings.mixinMarker
    unions := if unions = [] then settings.unions else unions }

end Settings

end Mixins
