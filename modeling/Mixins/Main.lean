import Mixins.Command.Arguments
import Mixins.Command.Execution

/-!
# The command line

A command works on a picture of the files that it names. The picture is taken before, and what the
command changed in it is brought to the files after.
-/

namespace Mixins.Main

/-- The paths that a command names. -/
def paths : Command → List Path
  | .merge out classpath config _ _ => out :: classpath ++ config.toList
  | .pack dir archive _ => [dir, archive]
  | .describe archive _ => [archive]
  | .inspect path _ => [path]
  | .assemble source out => [source, out]

def textOf (l : Location) : String := "/" ++ "/".intercalate l

/-- The location that a path means, and those on the way to it. -/
def steps (start : Location) (path : Path) : List Location :=
  let walk := fun (l, passed) name =>
    let l := if name = "." then l else if name = ".." then l.dropLast else l ++ [name]
    (l, passed ++ [l])
  ((FileTree.names path).foldl walk (if path.isAbsolute then ([], []) else (start, [start]))).2

/-- Adds what is at a location to the picture; with `deep`, also what is below it. -/
partial def look (deep : Bool) (files : FileTree) (l : Location) : IO FileTree := do
  let place := (← IO.currentDir) / textOf l
  let .ok data ← place.metadata.toBaseIO | return files
  match data.type with
  | .dir =>
    let files := (files.put? l .directory).getD files
    if !deep then return files
    let .ok items ← place.readDir.toBaseIO | return files
    items.foldlM (fun files item => look true files (l ++ [item.fileName])) files
  | .file =>
    let .ok content ← (IO.FS.readBinFile place).toBaseIO | return files
    let time := data.modified.sec * 1000 + data.modified.nsec.toNat / 1000000
    let files := (files.put? l (.file content.data.toList)).getD files
    return files.setModified ⟨textOf l⟩ (.ofInt time)
  | _ => return files

/-- The picture of the files at and below the given paths. -/
def picture (paths : List Path) : IO FileTree := do
  let start := FileTree.names ⟨toString (← IO.currentDir)⟩
  let above := (List.range start.length).map fun n => start.take (n + 1)
  let files ← above.foldlM (look false) { FileTree.empty with start }
  paths.foldlM
    (fun files path => do
      let passed := steps start path
      let files ← passed.foldlM (look false) files
      match passed.getLast? with
      | some l => look true files l
      | none => return files)
    files

/-- Replaces a file as a whole. -/
def replace (l : Location) (content : Utf8.Bytes) : IO Unit := do
  let temporary := textOf l ++ ".new"
  IO.FS.writeBinFile temporary content.toByteArray
  IO.FS.rename temporary (textOf l)

/-- Brings the files from the one state to the other. -/
def update (before after : FileTree) : IO Unit := do
  for (l, node) in after.nodes do
    if before.find? l ≠ some node then
      match node with
      | .directory => IO.FS.createDirAll (textOf l)
      | .file content => replace l content
  for (l, _) in before.nodes do
    if after.find? l = none then IO.FS.removeFile (textOf l)

def variableNames : List String :=
  ["TYPEWEAVE_NAMESPACE", "TYPEWEAVE_ROOT_MARKER", "TYPEWEAVE_MIXIN_MARKER",
    "TYPEWEAVE_BUILTIN_UNIONS", "TYPEWEAVE_STRICT"]

def environment : IO Environment := do
  return (← variableNames.mapM fun name => do
    return (← IO.getEnv name).map fun value => (name, Utf8.encode value)).filterMap id

def usage : String := "usage: typeweave (merge | pack | describe | inspect | assemble) ..."

/-- Executes a command line; the number is the exit code. -/
def run (arguments : List String) : IO UInt32 := do
  match Command.parse? arguments with
  | none =>
    IO.eprintln usage
    return 2
  | some invocation =>
    let files ← picture (paths invocation.command)
    let result := Command.execute files (← environment) invocation
    update files result.files
    IO.print result.output
    match result.failure with
    | none => return 0
    | some cause =>
      IO.eprintln cause.report
      return 1

end Mixins.Main

def main (arguments : List String) : IO UInt32 := Mixins.Main.run arguments
