import Mixins.Json

/-!
# Reading values from documents

A reader takes the number of arrays and objects that may still be nested, and a document, and gives
the value that the document spells, if it spells one.

A record is an object whose members are its fields in any order, or an array of its fields in their
order. In an object, members of other names are passed over, whatever they hold; a field given twice
is refused.
-/

namespace Mixins.Json

/-- At most this many arrays and objects may be nested in one another. -/
def maxDepth : Nat := 127

abbrev Reader (α : Type) := Nat → Json → Option α

def string? : Json → Option String
  | .str text => text
  | _ => none

/-- An integer from `low` to `high`. -/
def between? (low high : Int) : Json → Option Int
  | .int n => if low ≤ n ∧ n ≤ high then some n else none
  | _ => none

def byte? (j : Json) : Option UInt8 := (j.between? 0 255).map fun n => .ofNat n.toNat

def word16? (j : Json) : Option UInt16 := (j.between? 0 65535).map fun n => .ofNat n.toNat

def int64? (j : Json) : Option Int64 :=
  (j.between? (-9223372036854775808) 9223372036854775807).map .ofInt

def list? {α : Type} (item? : Reader α) : Reader (List α)
  | depth + 1, .arr items => items.mapM (item? depth)
  | _, _ => none

/-- Entries in their order; a key may repeat. -/
def entries? {α : Type} (value? : Reader α) : Reader (List (String × α))
  | depth + 1, .obj members =>
    members.mapM fun (key, value) => do return (← key, ← value? depth value)
  | _, _ => none

/-- A value, or null for none. -/
def optional? {α : Type} (value? : Reader α) : Reader (Option α)
  | _, .null => some none
  | depth, j => (value? depth j).map some

/-- The value of a field: missing, given once, or refused. -/
def field? (members : List (Option String × Json)) (name : String) : Option (Option Json) :=
  match members.filter (·.1 = some name) with
  | [] => some none
  | [(_, value)] => some (some value)
  | _ => none

/-- The fields of a record under the given names, and the depth left for them. An array has at least
`least` of them, from the front. -/
def record? (names : List String) (least : Nat) : Reader (Nat × List (Option Json))
  | depth + 1, .arr items =>
    if least ≤ items.length ∧ items.length ≤ names.length then
      some (depth, items.map some ++ List.replicate (names.length - items.length) none)
    else none
  | depth + 1, .obj members =>
    if members.all (·.1.isSome) then (names.mapM (field? members)).map fun fields => (depth, fields)
    else none
  | _, _ => none

/-- A field that may be missing, which is as good as null. -/
def optionalField? {α : Type} (value? : Reader α) (depth : Nat) : Option Json → Option (Option α)
  | none => some none
  | some j => optional? value? depth j

end Mixins.Json
