import Mixins.Json
import Mixins.Text.Cut

/-!
# Reading JSON

RFC 8259 and nothing beyond it: four blank characters, no leading zeros, no raw control characters
in texts, no comma before a closing bracket, nothing after the document.

A parser takes a value off the front of the text and returns the rest. The fuel of `value` bounds
the calls nested in one another; each character accounts for two of them at most.
-/

namespace Mixins.Json

open Mixins.Text

def isBlank (c : Char) : Bool :=
  c = ' ' || c = '\n' || c = '\t' || c = '\r'

def skipBlank (s : List Char) : List Char := s.dropWhile isBlank

/-! ## Texts -/

def hexValue? (c : Char) : Option Nat :=
  if '0' ≤ c ∧ c ≤ '9' then some (c.toNat - 48)
  else if 'a' ≤ c ∧ c ≤ 'f' then some (c.toNat - 87)
  else if 'A' ≤ c ∧ c ≤ 'F' then some (c.toNat - 55)
  else none

/-- The code point that a backslash and `c` stand for. -/
def escape? (c : Char) : Option Nat :=
  match c with
  | '"' => some 0x22
  | '\\' => some 0x5c
  | '/' => some 0x2f
  | 'b' => some 0x08
  | 'f' => some 0x0c
  | 'n' => some 0x0a
  | 'r' => some 0x0d
  | 't' => some 0x09
  | _ => none

/-- The code units of a text whose opening quotation mark has been taken: code points, and
surrogates where an escape names one. -/
def units : List Char → Option (List Nat × List Char)
  | [] => none
  | '"' :: rest => some ([], rest)
  | '\\' :: 'u' :: a :: b :: c :: d :: rest => do
    let unit :=
      4096 * (← hexValue? a) + 256 * (← hexValue? b) + 16 * (← hexValue? c) + (← hexValue? d)
    let (us, rest) ← units rest
    some (unit :: us, rest)
  | '\\' :: c :: rest => do
    let unit ← escape? c
    let (us, rest) ← units rest
    some (unit :: us, rest)
  | c :: rest =>
    if c.toNat < 0x20 then none
    else do
      let (us, rest) ← units rest
      some (c.toNat :: us, rest)

def isHigh (unit : Nat) : Bool := 0xd800 ≤ unit && unit < 0xdc00

def isLow (unit : Nat) : Bool := 0xdc00 ≤ unit && unit < 0xe000

/-- The characters of code units, each high surrogate joined with the low one after it; none if a
surrogate is left over. -/
def ofUnits : List Nat → Option (List Char)
  | [] => some []
  | unit :: rest =>
    if isHigh unit then
      match rest with
      | [] => none
      | low :: rest =>
        if isLow low then
          (ofUnits rest).map (Char.ofNat (0x10000 + (unit - 0xd800) * 0x400 + (low - 0xdc00)) :: ·)
        else none
    else if isLow unit then none
    else (ofUnits rest).map (Char.ofNat unit :: ·)

def text (s : List Char) : Option (Option String × List Char) := do
  let (us, rest) ← units s
  some ((ofUnits us).map String.ofList, rest)

/-! ## Numbers -/

/-- One or more digits. -/
def digits (s : List Char) : Option (List Char × List Char) :=
  match s.takeWhile Char.isDigit with
  | [] => none
  | ds => some (ds, s.dropWhile Char.isDigit)

/-- The digits before the point: no zero stands in front of others. -/
def wholePart : List Char → Option (List Char × List Char)
  | '0' :: rest => some (['0'], rest)
  | s => digits s

def fraction : List Char → Option (Bool × List Char)
  | '.' :: rest => (digits rest).map fun (_, rest) => (true, rest)
  | rest => some (false, rest)

def exponent : List Char → Option (Bool × List Char)
  | c :: rest =>
    if c = 'e' || c = 'E' then
      let rest := match rest with
        | '+' :: rest => rest
        | '-' :: rest => rest
        | rest => rest
      (digits rest).map fun (_, rest) => (true, rest)
    else some (false, c :: rest)
  | [] => some (false, [])

def natOf (ds : List Char) : Nat :=
  ds.foldl (fun n d => 10 * n + (d.toNat - 48)) 0

def number (s : List Char) : Option (Json × List Char) := do
  let (negative, s) := match s with
    | '-' :: s => (true, s)
    | s => (false, s)
  let (whole, s) ← wholePart s
  let (hasFraction, s) ← fraction s
  let (hasExponent, s) ← exponent s
  let n := natOf whole
  if hasFraction || hasExponent || (negative && n = 0) then some (.real, s)
  else some (.int (if negative then -n else n), s)

/-! ## Documents -/

mutual
def value : (fuel : Nat) → List Char → Option (Json × List Char)
  | 0, _ => none
  | fuel + 1, s =>
    match skipBlank s with
    | '[' :: s =>
      match skipBlank s with
      | ']' :: s => some (.arr [], s)
      | s => (items fuel s).map fun (vs, s) => (.arr vs, s)
    | '\x7b' :: s =>
      match skipBlank s with
      | '\x7d' :: s => some (.obj [], s)
      | s => (members fuel s).map fun (ms, s) => (.obj ms, s)
    | '"' :: s => (text s).map fun (t, s) => (.str t, s)
    | s =>
      match dropWord "null".toList s with
      | some s => some (.null, s)
      | none =>
        match dropWord "true".toList s with
        | some s => some (.bool true, s)
        | none =>
          match dropWord "false".toList s with
          | some s => some (.bool false, s)
          | none => number s
/-- The items up to the closing bracket: at least one. -/
def items : (fuel : Nat) → List Char → Option (List Json × List Char)
  | 0, _ => none
  | fuel + 1, s => do
    let (v, s) ← value fuel s
    match skipBlank s with
    | ',' :: s => do
      let (vs, s) ← items fuel s
      some (v :: vs, s)
    | ']' :: s => some ([v], s)
    | _ => none
/-- The members up to the closing brace: at least one. -/
def members : (fuel : Nat) → List Char → Option (List (Option String × Json) × List Char)
  | 0, _ => none
  | fuel + 1, s =>
    match skipBlank s with
    | '"' :: s => do
      let (key, s) ← text s
      match skipBlank s with
      | ':' :: s => do
        let (v, s) ← value fuel s
        match skipBlank s with
        | ',' :: s => do
          let (ms, s) ← members fuel s
          some ((key, v) :: ms, s)
        | '\x7d' :: s => some ([(key, v)], s)
        | _ => none
      | _ => none
    | _ => none
end

/-- The document that the text is. -/
def parse? (s : String) : Option Json :=
  match value (2 * s.length + 2) s.toList with
  | some (v, rest) => if skipBlank rest = [] then some v else none
  | none => none

end Mixins.Json
