/-!
# JSON documents

A document as it is read and printed. Members of an object keep their order and may repeat.

A text is `none` if its escapes leave a surrogate unpaired: such a text stands for no string. A
number with a fraction or an exponent, and minus zero, is `real`: it stands for no integer.
-/

namespace Mixins

inductive Json where
  | null
  | bool (b : Bool)
  | int (n : Int)
  | real
  | str (text : Option String)
  | arr (items : List Json)
  | obj (members : List (Option String × Json))
  deriving Repr, Inhabited

namespace Json

def ofString (s : String) : Json := .str (some s)

def ofStrings (ss : List String) : Json := .arr (ss.map ofString)

/-- An object with the given members in their order. -/
def ofMembers (members : List (String × Json)) : Json :=
  .obj (members.map fun (key, value) => (some key, value))

def ofOption {α : Type} (value : α → Json) : Option α → Json
  | none => .null
  | some a => value a

mutual
/-- How many arrays and objects stand inside one another. -/
def depth : Json → Nat
  | .arr items => 1 + depthItems items
  | .obj members => 1 + depthMembers members
  | _ => 0
def depthItems : List Json → Nat
  | [] => 0
  | item :: items => max item.depth (depthItems items)
def depthMembers : List (Option String × Json) → Nat
  | [] => 0
  | (_, value) :: members => max value.depth (depthMembers members)
end

end Json

end Mixins
