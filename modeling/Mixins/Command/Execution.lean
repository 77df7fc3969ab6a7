import Mixins.Command
import Mixins.Json.TypeForm
import Mixins.Run

/-!
# Executing commands

A command works on a file tree and an environment. It gives back the tree as it has become, what it
prints, and why it failed, if it did.
-/

namespace Mixins

structure Command.Result where
  files : FileTree
  output : String
  failure : Option Command.Error

namespace Command

def Result.success (files : FileTree) (output : String) : Result := ⟨files, output, none⟩

def Result.failed (files : FileTree) (cause : Error) : Result := ⟨files, "", some cause⟩

/-- The result of a command that leaves the files alone. -/
def Result.ofQuery (files : FileTree) : Except Error String → Result
  | .ok output => .success files output
  | .error cause => .failed files cause

def line (text : String) : String := text ++ "\n"

/-! ## Merging -/

def settings (files : FileTree) (env : Environment) (config : Option Path) (space : Option String) :
    Except Settings.FileError Settings := do
  let read ← match config with
    | some path => Settings.ofFile files path
    | none => .ok Settings.default
  let settings := read.overlaid env
  return { settings with namespaceName := space.getD settings.namespaceName }

/-- The output root comes first, and only there. -/
def classpathEntries (out : Path) (classpath : List Path) : List Path :=
  out :: classpath.filter (!·.sameAs out)

def statusWord (r : TargetReport) : String :=
  match r.error, r.written with
  | some _, _ => "FAIL"
  | none, some _ => "OK"
  | none, none => "SKIP"

def errorLines (error : Option String) : List String :=
  error.toList.map fun text => "      error: " ++ text

def targetLines (r : TargetReport) : List String :=
  let counts := r.outcome.counters
  ("[" ++ statusWord r ++ "] " ++ r.target ++ " <- " ++ ", ".intercalate r.mixins ++ " (added "
    ++ toString counts.added ++ ", ignored " ++ toString counts.ignored ++ ", failed "
    ++ toString counts.failed ++ ")") :: errorLines r.error

def unionLines (r : UnionReport) : List String :=
  let counts := r.outcome.counters
  ("[UNION] " ++ r.typeName ++ ": " ++ toString r.variants.length ++ " variants (added "
    ++ toString counts.added ++ ", ignored " ++ toString counts.ignored ++ ")")
    :: errorLines r.error

def summary (r : Report) : String :=
  "Summary: " ++ toString r.targets.length ++ " targets, " ++ toString r.totals.added ++ " added, "
    ++ toString r.totals.ignored ++ " ignored, " ++ toString r.errorCount ++ " errors"

def reportText (r : Report) : String :=
  String.join <| List.map line <|
    ["typeweave merge"] ++ r.targets.flatMap targetLines ++ r.unions.flatMap unionLines
      ++ ["", summary r]

def runMerge (files : FileTree) (env : Environment) (json : Bool) (out : Path)
    (classpath : List Path) (config : Option Path) (space : Option String) (strict : Bool) :
    Result :=
  if !files.isDirectory out then .failed files (.noOutputRoot out)
  else
    match settings files env config space with
    | .error cause => .failed files (.settings cause)
    | .ok settings =>
      let modules := Classpath.ofPaths files (classpathEntries out classpath)
      let (report, files) := Run.run settings ⟨out⟩ modules files
      let output := if json then line report.toJson.pretty else reportText report
      let isError := (strict || env.flag "TYPEWEAVE_STRICT") && 0 < report.errorCount
      ⟨files, output, if isError then some (.mergesFailed report.errorCount) else none⟩

/-! ## Packing and describing -/

def defaultManifest : Utf8.Bytes := Utf8.encode "Manifest-Version: 1.0\n"

/-- The archive with a manifest of the given time; its content stays if there is one. -/
def stampManifest (archive : Archive) (time : Int64) : Archive :=
  let content := ((archive.find? Archive.manifestPath).map (·.content)).getD defaultManifest
  archive.add Archive.manifestPath time content

def packedText (json : Bool) (path : Path) (archive : Archive) : String :=
  if json then
    (Json.ofMembers
      [("archive", Json.ofString path.text),
        ("entries", Json.ofStrings (archive.entries.map (·.path)))]).pretty
  else "Packed " ++ toString archive.entries.length ++ " entries into " ++ path.text

def packDirectory (files : FileTree) (json : Bool) (dir path : Path)
    (manifestTime : Option Int64) : Result :=
  if !files.isDirectory dir then .failed files (.notDirectory dir)
  else
    match Archive.ofDirectory files dir with
    | .error cause => .failed files (.archive cause)
    | .ok archive =>
      let archive := manifestTime.elim archive (stampManifest archive)
      match archive.write files path with
      | (files, .error cause) => .failed files (.writeArchive path cause)
      | (files, .ok ()) => .success files (line (packedText json path archive))

def descriptorJson (d : Descriptor) : Json :=
  Json.ofMembers
    [("name", Json.ofString d.name), ("version", Json.ofString d.version),
      ("last_update_timestamp", .int d.lastUpdate.toInt),
      ("model_version", Json.ofString d.modelVersion)]

def descriptorText (d : Descriptor) : String :=
  String.join <| List.map line
    [d.display, "  name:          " ++ d.name, "  version:       " ++ d.version,
      "  model version: " ++ d.modelVersion,
      "  updated:       " ++ d.lastUpdateText?.getD (toString d.lastUpdate.toInt)]

/-- The descriptor of the library in the archive at a path. -/
def descriptorOf (files : FileTree) (path : Path) (group : String) : Except Error Descriptor := do
  let archive ← (Archive.read files path).mapError .archive
  (Descriptor.ofArchive group archive).mapError (.describe path)

def describeArchive (files : FileTree) (json : Bool) (path : Path) (group : String) :
    Except Error String := do
  let d ← descriptorOf files path group
  return if json then line (descriptorJson d).pretty else descriptorText d

/-! ## Types as JSON -/

/-- The type itself, or the one of the given name that is nested in it. -/
def select (outer : TypeDef) : Option String → Except Error TypeDef
  | none => .ok outer
  | some name =>
    if Name.outermost name ≠ outer.name then .error (.notDeclaredIn name outer.name)
    else
      match outer.descendant? (Name.chain name) with
      | some t => .ok t
      | none => .error (.noSuchNested name)

/-- Decodes a type file of which the name is known. -/
def decodeType (content : Utf8.Bytes) (context : String) : Except Error TypeDef :=
  (TypeDef.ofBytes content context).mapError .failure

def inspectPath (files : FileTree) (path : Path) (typeName : Option String) :
    Except Error String := do
  if path.extension? = some Layout.extension then
    let content ← (files.read path).mapError (.read path)
    let t ← select (← decodeType content path.text) typeName
    return line t.pretty
  else
    let archive ← (Archive.read files path).mapError .archive
    match typeName with
    | none =>
      let names := archive.entries.filterMap fun e => Layout.nameOfEntry e.path
      return line (Json.ofStrings (FileTree.sorted names)).pretty
    | some name =>
      match archive.find? (Layout.entryPath name) with
      | none => .error (.notInArchive name path)
      | some entry =>
        let t ← select (← decodeType entry.content (Layout.entryPath name)) typeName
        return line t.pretty

def assembleType (files : FileTree) (source out : Path) : Result :=
  match (files.readText source).mapError (Error.read source) with
  | .error cause => .failed files cause
  | .ok text =>
    match TypeDef.parse? text with
    | none => .failed files .parse
    | some t =>
      if !Name.isOutermost t.name then .failed files (.nestedType t.name)
      else
        match t.toBytes with
        | .error cause => .failed files (.failure cause)
        | .ok content =>
          match files.replace out content with
          | (files, .error cause) => .failed files (.file cause)
          | (files, .ok ()) => .success files (line ("Wrote " ++ t.name ++ " to " ++ out.text))

/-- Does what the command line asks for. -/
def execute (files : FileTree) (env : Environment) (invocation : Invocation) : Result :=
  match invocation.command with
  | .merge out classpath config space strict =>
    runMerge files env invocation.json out classpath config space strict
  | .pack dir archive manifestTime => packDirectory files invocation.json dir archive manifestTime
  | .describe archive group => .ofQuery files (describeArchive files invocation.json archive group)
  | .inspect path typeName => .ofQuery files (inspectPath files path typeName)
  | .assemble source out => assembleType files source out

end Command

end Mixins
