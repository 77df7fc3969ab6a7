import Mixins.Hex
import Mixins.Json

/-!
# Printing JSON

A document on several lines, for a reader: each item and each member on a line of its own, indented
by two blanks for every array and object around it; nothing between the brackets of an empty one. Or
a document without blanks, for one line. In a text only quotation marks, backslashes and control
characters are escaped.

A printer takes the characters that follow the document, so that each character is written once.
-/

namespace Mixins.Json

def escaped (c : Char) : List Char :=
  match c with
  | '"' => ['\\', '"']
  | '\\' => ['\\', '\\']
  | '\x08' => ['\\', 'b']
  | '\t' => ['\\', 't']
  | '\n' => ['\\', 'n']
  | '\x0c' => ['\\', 'f']
  | '\r' => ['\\', 'r']
  | c =>
    if c.toNat < 0x20 then
      ['\\', 'u', '0', '0', Hex.digit (c.toNat / 16), Hex.digit (c.toNat % 16)]
    else [c]

/-- A text without characters is printed as an unpaired surrogate. -/
def textChars : Option String → List Char
  | some s => '"' :: s.toList.flatMap escaped ++ ['"']
  | none => "\"\\ud800\"".toList

/-- The blanks between the parts of a document. -/
structure Spacing where
  /-- Before an item, a member or a closing bracket, for the arrays and objects around it. -/
  lineBreak : (depth : Nat) → List Char
  afterColon : List Char

/-- A line for each part. -/
def Spacing.lines : Spacing := ⟨fun depth => '\n' :: List.replicate (2 * depth) ' ', [' ']⟩

def Spacing.none : Spacing := ⟨fun _ => [], []⟩

mutual
/-- The document in front of `rest`. -/
def print (spacing : Spacing) (depth : Nat) (rest : List Char) : Json → List Char
  | .null => "null".toList ++ rest
  | .bool true => "true".toList ++ rest
  | .bool false => "false".toList ++ rest
  | .int n => (toString n).toList ++ rest
  | .real => "-0".toList ++ rest
  | .str t => textChars t ++ rest
  | .arr [] => '[' :: ']' :: rest
  | .arr (item :: items) =>
    let close := spacing.lineBreak depth ++ ']' :: rest
    '[' :: (spacing.lineBreak (depth + 1)
      ++ item.print spacing (depth + 1) (printItems spacing (depth + 1) close items))
  | .obj [] => '\x7b' :: '\x7d' :: rest
  | .obj ((key, value) :: members) =>
    let close := spacing.lineBreak depth ++ '\x7d' :: rest
    '\x7b' :: (spacing.lineBreak (depth + 1) ++ (textChars key ++ ':' :: (spacing.afterColon
      ++ value.print spacing (depth + 1) (printMembers spacing (depth + 1) close members))))
/-- The items after the first. -/
def printItems (spacing : Spacing) (depth : Nat) (rest : List Char) : List Json → List Char
  | [] => rest
  | item :: items =>
    ',' :: (spacing.lineBreak depth
      ++ item.print spacing depth (printItems spacing depth rest items))
/-- The members after the first. -/
def printMembers (spacing : Spacing) (depth : Nat) (rest : List Char) :
    List (Option String × Json) → List Char
  | [] => rest
  | (key, value) :: members =>
    ',' :: (spacing.lineBreak depth ++ (textChars key ++ ':' :: (spacing.afterColon
      ++ value.print spacing depth (printMembers spacing depth rest members))))
end

/-- The document on several lines. -/
def pretty (j : Json) : String := String.ofList (j.print .lines 0 [])

/-- The document without blanks. -/
def compact (j : Json) : String := String.ofList (j.print .none 0 [])

end Mixins.Json
