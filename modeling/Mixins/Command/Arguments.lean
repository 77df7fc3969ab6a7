import Mixins.Command

/-!
# Command line arguments

Options are written `--name value` or `--name=value` and flags `--name`; some flags have a letter.
Two dashes alone end the options. An option or a flag stands once, unless it is a list. A value that
starts with a dash has to be written with an equals sign.

General options may stand before the command's name as well as after it.
-/

namespace Mixins.Command

/-- The options that are known in one place. -/
structure Grammar where
  flags : List String
  /-- Letters of flags. -/
  letters : List (Char × String)
  options : List String
  /-- Options that may be repeated. -/
  lists : List String

/-- What was read so far. -/
structure Arguments where
  flags : List String
  values : List (String × String)
  plain : List String
  deriving DecidableEq, Repr, Inhabited

namespace Arguments

def empty : Arguments := ⟨[], [], []⟩

def addFlag? (known : Grammar) (name : String) (a : Arguments) : Option Arguments :=
  if known.flags.contains name && !a.flags.contains name then
    some { a with flags := a.flags ++ [name] }
  else none

def addValue? (known : Grammar) (name value : String) (a : Arguments) : Option Arguments :=
  if known.lists.contains name
    || (known.options.contains name && !a.values.any (·.1 == name)) then
    some { a with values := a.values ++ [(name, value)] }
  else none

/-- Flags by their letters, one after the other. -/
def addLetters? (known : Grammar) (letters : List Char) (a : Arguments) : Option Arguments :=
  letters.foldlM (fun a letter => do a.addFlag? known (← known.letters.lookup letter)) a

def hasValue (known : Grammar) (name : String) : Bool :=
  known.options.contains name || known.lists.contains name

/-- An argument that starts with a dash, other than a dash alone. -/
def isOption (argument : String) : Bool :=
  argument.toList.head? == some '-' && argument ≠ "-"

/-- The name and the value of an argument `--name=value`. -/
def split? (argument : List Char) : Option (String × String) :=
  (Text.before ['='] argument).map fun (name, value) => (String.ofList name, String.ofList value)

/-- Reads arguments up to the first plain one, or all of them. -/
def read? (known : Grammar) (stopAtPlain : Bool) :
    List String → Arguments → Option (Arguments × List String)
  | [], a => some (a, [])
  | argument :: rest, a =>
    match argument.toList with
    | ['-', '-'] =>
      if stopAtPlain then none else some ({ a with plain := a.plain ++ rest }, [])
    | '-' :: '-' :: name =>
      match split? name with
      | some (name, value) => do read? known stopAtPlain rest (← a.addValue? known name value)
      | none =>
        let name := String.ofList name
        if hasValue known name then
          match rest with
          | [] => none
          | value :: rest =>
            if isOption value then none
            else do read? known stopAtPlain rest (← a.addValue? known name value)
        else do read? known stopAtPlain rest (← a.addFlag? known name)
    | '-' :: letter :: letters => do
      read? known stopAtPlain rest (← a.addLetters? known (letter :: letters))
    | _ =>
      if stopAtPlain then some (a, argument :: rest)
      else read? known stopAtPlain rest { a with plain := a.plain ++ [argument] }

def flag (a : Arguments) (name : String) : Bool := a.flags.contains name

def text? (a : Arguments) (name : String) : Option String := a.values.lookup name

end Arguments

/-- A path must not be empty. -/
def path? (text : String) : Option Path :=
  if text = "" then none else some ⟨text⟩

/-- An integer of 64 bits: digits, of which a sign may stand in front. -/
def integer? (text : String) : Option Int64 :=
  let (negative, digits) := match text.toList with
    | '-' :: digits => (true, digits)
    | '+' :: digits => (false, digits)
    | digits => (false, digits)
  if digits = [] || !digits.all Char.isDigit then none
  else
    let magnitude : Int := digits.foldl (fun n c => 10 * n + (c.toNat - 48)) (0 : Nat)
    let n := if negative then -magnitude else magnitude
    if -9223372036854775808 ≤ n ∧ n ≤ 9223372036854775807 then some (.ofInt n) else none

/-- Reads the value of an option, if it is given. -/
def optional? {α : Type} (read? : String → Option α) (text : Option String) : Option (Option α) :=
  match text with
  | none => some none
  | some text => (read? text).map some

/-- What every command understands. -/
def general : Grammar := ⟨["json", "verbose"], [('v', "verbose")], ["log-format"], []⟩

/-- A grammar with more flags, options and lists. -/
def Grammar.extended (g : Grammar) (flags options lists : List String) : Grammar :=
  { g with
    flags := g.flags ++ flags
    options := g.options ++ options
    lists := g.lists ++ lists }

/-- Refuses an unknown log format. -/
def checkGeneral (a : Arguments) : Option Unit :=
  if ["compact", "json"].contains ((a.text? "log-format").getD "compact") then some () else none

/-- The options of the command of the given name. -/
def grammarOf? : String → Option Grammar
  | "merge" => some (general.extended ["strict"] ["out", "config", "namespace"] ["classpath"])
  | "pack" => some (general.extended [] ["manifest-time"] [])
  | "describe" => some (general.extended [] ["group-prefix"] [])
  | "inspect" => some (general.extended [] ["type"] [])
  | "assemble" => some (general.extended [] [] [])
  | _ => none

/-- The command of the given name with its arguments. -/
def ofArguments? (name : String) (a : Arguments) : Option Command :=
  match name, a.plain with
  | "merge", [] => do
    let classpath := (a.values.filter (·.1 == "classpath")).map (·.2)
    return .merge (← path? (← a.text? "out")) (← classpath.mapM path?)
      (← optional? path? (a.text? "config")) (a.text? "namespace") (a.flag "strict")
  | "pack", [dir, archive] => do
    return .pack (← path? dir) (← path? archive) (← optional? integer? (a.text? "manifest-time"))
  | "describe", [archive] => do
    return .describe (← path? archive) ((a.text? "group-prefix").getD Descriptor.defaultGroup)
  | "inspect", [path] => do return .inspect (← path? path) (a.text? "type")
  | "assemble", [source, out] => do return .assemble (← path? source) (← path? out)
  | _, _ => none

/-- What a command line asks for; none if it is not understood. -/
def parse? (arguments : List String) : Option Invocation := do
  let (before, name :: rest) ← Arguments.read? general true arguments .empty | none
  checkGeneral before
  let (after, _) ← Arguments.read? (← grammarOf? name) false rest .empty
  checkGeneral after
  return ⟨← ofArguments? name after, before.flag "json" || after.flag "json"⟩

end Mixins.Command
