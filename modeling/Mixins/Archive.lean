import Mixins.Text.Cut
import Mixins.Wire

/-!
# Module archives

An archive is a module in a single file: entries by path, each with its time of modification and its
content. Adding an entry under a path that is taken removes the old one and puts the new one last.

Principal statements: `find?_add_self`, `find?_add_of_ne` — an added entry is found under its own
path, and the others as before.
-/

namespace Mixins

structure Archive.Entry where
  path : String
  modified : Int64
  content : Utf8.Bytes
  deriving DecidableEq, Repr, Inhabited

structure Archive where
  version : UInt32
  entries : List Archive.Entry
  deriving DecidableEq, Repr, Inhabited

namespace Archive

/-- The only version of the format that is read. -/
def currentVersion : UInt32 := 1

def manifestPath : String := "META-INF/MANIFEST.MF"

def empty : Archive := ⟨currentVersion, []⟩

def add (a : Archive) (path : String) (modified : Int64) (content : Utf8.Bytes) : Archive :=
  { a with entries := a.entries.filter (·.path ≠ path) ++ [⟨path, modified, content⟩] }

def find? (a : Archive) (path : String) : Option Entry :=
  a.entries.find? (·.path = path)

/-- The first entry whose path ends in `ending`. -/
def entryEndingIn? (a : Archive) (ending : String) : Option Entry :=
  a.entries.find? fun e => (Text.dropWordEnd ending.toList e.path.toList).isSome

theorem find?_add_self (a : Archive) (path : String) (modified : Int64) (content : Utf8.Bytes) :
    (a.add path modified content).find? path = some ⟨path, modified, content⟩ := by
  have hnone : a.entries.find? (fun _ => false) = none := by simp
  simp [add, find?, List.find?_append, List.find?_filter, hnone]

theorem find?_add_of_ne (a : Archive) {path other : String} (h : other ≠ path) (modified : Int64)
    (content : Utf8.Bytes) : (a.add path modified content).find? other = a.find? other := by
  simp only [add, find?, List.find?_append, List.find?_filter, List.find?_singleton,
    decide_eq_true_eq, Ne.symm h, if_false, Option.or_none]
  congr 1
  funext e
  by_cases he : e.path = other <;> simp [he, h]

/-! ## The archive file -/

/-- Why bytes are no archive. -/
inductive FormatError where
  | encode (cause : Wire.Error)
  | decode (cause : Wire.Error)
  | version (found : UInt32)
  deriving DecidableEq, Repr, Inhabited

def FormatError.message : FormatError → String
  | .encode cause => "Failed to encode module archive: " ++ cause.message
  | .decode cause => "Failed to decode module archive: " ++ cause.message
  | .version found =>
    "Unsupported module archive version " ++ toString found.toNat ++ " (expected "
      ++ toString currentVersion.toNat ++ ")"

open Wire

def Entry.encode : Nat → Entry → Encoded
  | 0, _ => .error (.tooDeep "ArchiveEntry")
  | _ + 1, e => do return (← text e.path) ++ int64 e.modified ++ (← bytes e.content)

def Entry.decode : Nat → Decoder Entry
  | 0, _ => .error (.tooDeep "ArchiveEntry")
  | _ + 1, bytes => do
    let (path, rest) ← decodeText bytes
    let (modified, rest) ← decodeInt64 rest
    let (content, rest) ← decodeBytes rest
    .ok (⟨path, modified, content⟩, rest)

def encode : Nat → Archive → Encoded
  | 0, _ => .error (.tooDeep "ModuleArchive")
  | depth + 1, a => do return word32 a.version ++ (← sequence (Entry.encode depth) a.entries)

def decode : Nat → Decoder Archive
  | 0, _ => .error (.tooDeep "ModuleArchive")
  | depth + 1, bytes => do
    let (version, rest) ← decodeWord32 bytes
    let (entries, rest) ← decodeSequence (Entry.decode depth) rest
    .ok (⟨version, entries⟩, rest)

def toBytes (a : Archive) : Except FormatError Utf8.Bytes :=
  (a.encode maxDepth).mapError .encode

def ofBytes (content : Utf8.Bytes) : Except FormatError Archive := do
  let a ← (complete (decode maxDepth) content).mapError .decode
  if a.version = currentVersion then .ok a else .error (.version a.version)

end Archive

end Mixins
