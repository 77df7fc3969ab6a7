/-!
# Cutting a text

Names, paths and descriptors are taken apart at a character or at a word, and blanks are cut off at
the ends of a text. A cut works on `List Char`, where it is a recursion on the text.

Principal statements: `afterLast_append` and `afterLast_eq_none` — a cut after the last mark keeps
just what follows it.
-/

namespace Mixins.Text

/-- What follows the last `mark`, if there is one. -/
def afterLast (mark : Char) : List Char → Option (List Char)
  | [] => none
  | c :: rest =>
    match afterLast mark rest with
    | some tail => some tail
    | none => if c = mark then some rest else none

theorem afterLast_eq_none {mark : Char} {s : List Char} (h : mark ∉ s) :
    afterLast mark s = none := by
  induction s with
  | nil => rfl
  | cons c rest ih =>
    simp only [List.mem_cons, not_or] at h
    simp [afterLast, ih h.2, Ne.symm h.1]

theorem afterLast_append {mark : Char} (s : List Char) {tail : List Char} (h : mark ∉ tail) :
    afterLast mark (s ++ mark :: tail) = some tail := by
  induction s with
  | nil => simp [afterLast, afterLast_eq_none h]
  | cons c rest ih => simp [afterLast, ih]

/-- What follows the first `mark`, if there is one. -/
def afterFirst (mark : Char) : List Char → Option (List Char)
  | [] => none
  | c :: rest => if c = mark then some rest else afterFirst mark rest

/-- The text without `word` at its front, if it starts with it. -/
def dropWord : List Char → List Char → Option (List Char)
  | [], s => some s
  | _ :: _, [] => none
  | w :: word, c :: s => if w = c then dropWord word s else none

theorem dropWord_eq_some_iff {word s rest : List Char} :
    dropWord word s = some rest ↔ s = word ++ rest := by
  induction word generalizing s with
  | nil => simp [dropWord]
  | cons w word ih =>
    cases s with
    | nil => simp [dropWord]
    | cons c s => by_cases h : w = c <;> simp [dropWord, h, ih, eq_comm]

/-- The text without `word` at its end, if it ends with it. -/
def dropWordEnd (word s : List Char) : Option (List Char) :=
  (dropWord word.reverse s.reverse).map List.reverse

/-- The text before the first occurrence of `word`, and what follows that occurrence. -/
def before (word : List Char) : List Char → Option (List Char × List Char)
  | [] => if word = [] then some ([], []) else none
  | c :: s =>
    match dropWord word (c :: s) with
    | some rest => some ([], rest)
    | none => (before word s).map fun (head, rest) => (c :: head, rest)

/-- The text before the last occurrence of `word`. -/
def beforeLast (word : List Char) : List Char → Option (List Char)
  | [] => if word = [] then some [] else none
  | c :: s =>
    match beforeLast word s with
    | some head => some (c :: head)
    | none => if (dropWord word (c :: s)).isSome then some [] else none

/-! ## Blanks -/

/-- The property White_Space, as ranges of code points: 25 characters. -/
def blankRanges : List (Nat × Nat) :=
  [(0x09, 0x0d), (0x20, 0x20), (0x85, 0x85), (0xa0, 0xa0), (0x1680, 0x1680), (0x2000, 0x200a),
   (0x2028, 0x2029), (0x202f, 0x202f), (0x205f, 0x205f), (0x3000, 0x3000)]

def isBlank (c : Char) : Bool :=
  blankRanges.any fun (first, last) => first ≤ c.toNat && c.toNat ≤ last

/-- The text without the blanks at its end. -/
def trimRight (s : List Char) : List Char :=
  (s.reverse.dropWhile isBlank).reverse

/-- The text without the blanks at either end. -/
def trim (s : String) : String :=
  String.ofList (trimRight (s.toList.dropWhile isBlank))

end Mixins.Text
