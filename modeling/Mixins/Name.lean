import Mixins.Text.Cut

/-!
# Qualified names

A type is addressed by a dotted name: a package, then a simple name. The simple name of a nested
type is the name of the type around it, a dollar sign and the name it was declared with:
`def.lib.Outer$Inner`. A dollar sign at the very front of a simple name separates nothing; it
belongs to the name, as in `def.lib.$Proxy`.

Everything is said on characters in the namespace `Name.Chars` and carried over to `String`.

Principal statements: `rebase_self`, `rebase_nested` — a reference to the old owner, or to a type
nested in it, moves to the new one; `rebase_eq_none` — no other reference does.
-/

namespace Mixins.Name

open Mixins.Text

/-- The name of the type that describes a package. -/
def packageInfo : String := "package-info"

namespace Chars

/-- The part after the last dot. -/
def simple (name : List Char) : List Char :=
  (afterLast '.' name).getD name

/-- The part up to and including the last dot. -/
def package (name : List Char) : List Char :=
  name.take (name.length - (simple name).length)

/-- The name a type was declared with: what follows the last separating dollar sign. -/
def inner (name : List Char) : List Char :=
  match simple name with
  | [] => []
  | c :: rest => (afterLast '$' rest).getD (c :: rest)

/-- The name of the type whose file holds this one: what precedes the first separating dollar sign.
-/
def outermost (name : List Char) : List Char :=
  package name ++
    match simple name with
    | [] => []
    | c :: rest => c :: rest.takeWhile (· ≠ '$')

/-- The declared names on the way from the outermost type to this one; empty segments do not count.
-/
def chain (name : List Char) : List (List Char) :=
  match (simple name).tail.dropWhile (· ≠ '$') with
  | [] => []
  | _ :: segments => (segments.splitOn '$').filter (· ≠ [])

def rebase (name source destination : List Char) : Option (List Char) :=
  match dropWord source name with
  | some [] => some destination
  | some ('$' :: rest) => some (destination ++ '$' :: rest)
  | _ => none

theorem rebase_self (source destination : List Char) :
    rebase source source destination = some destination := by
  have h : dropWord source source = some [] := dropWord_eq_some_iff.2 (by simp)
  simp [rebase, h]

theorem rebase_nested (source destination rest : List Char) :
    rebase (source ++ '$' :: rest) source destination = some (destination ++ '$' :: rest) := by
  have h : dropWord source (source ++ '$' :: rest) = some ('$' :: rest) :=
    dropWord_eq_some_iff.2 rfl
  simp [rebase, h]

theorem rebase_eq_none {name source : List Char} (destination : List Char) (hne : name ≠ source)
    (hnested : ∀ rest, name ≠ source ++ '$' :: rest) : rebase name source destination = none := by
  unfold rebase
  split
  · rename_i h
    exact absurd (dropWord_eq_some_iff.1 h) (by simpa using hne)
  · rename_i rest h
    exact absurd (dropWord_eq_some_iff.1 h) (hnested rest)
  · rfl

end Chars

def simple (name : String) : String := String.ofList (Chars.simple name.toList)

def inner (name : String) : String := String.ofList (Chars.inner name.toList)

def outermost (name : String) : String := String.ofList (Chars.outermost name.toList)

def chain (name : String) : List String := (Chars.chain name.toList).map String.ofList

/-- A type with a file of its own. -/
def isOutermost (name : String) : Bool := outermost name == name

/-- What follows the first dollar sign of a simple name, wherever it stands. -/
def withoutOuter (simple : String) : String :=
  ((afterFirst '$' simple.toList).map String.ofList).getD simple

/-- The full name of the type declared as `inner` inside `outer`. -/
def nested (outer inner : String) : String := outer ++ "$" ++ inner

def packageInfoOf (package : String) : String :=
  if package = "" then packageInfo else package ++ "." ++ packageInfo

/-- The reference `name` after its owner `source` has become `destination`: none if it refers
neither to `source` nor to a type nested in it. -/
def rebase (name source destination : String) : Option String :=
  (Chars.rebase name.toList source.toList destination.toList).map String.ofList

/-- As `rebase`, with other references left as they are. -/
def rebind (name source destination : String) : String :=
  (rebase name source destination).getD name

theorem rebase_self (source destination : String) :
    rebase source source destination = some destination := by
  simp [rebase, Chars.rebase_self]

theorem rebase_nested (source destination inner : String) :
    rebase (nested source inner) source destination = some (nested destination inner) := by
  simp [rebase, nested, Chars.rebase_nested]
  rw [← String.toList_inj]
  simp

end Mixins.Name
