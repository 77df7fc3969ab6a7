import Mixins.Text.Utf8

/-!
# The binary format

Values as bytes, one way only. Numbers have a fixed width, lowest byte first. Lengths and variant
indices are written in groups of seven bits, lowest first, all but the last with the high bit set
and without idle groups. A text is its length in bytes and its UTF-8 form, a sequence its length and
its items, a map its length and its entries by increasing bytes of their keys. Records and variants
may be nested `maxDepth` deep.

A decoder takes a value off the front of the bytes and returns the rest.
-/

namespace Mixins.Wire

open Utf8 (Bytes)

/-- Why bytes are no encoding of a value, or a value has none. -/
inductive Error where
  | endOfInput
  | remainingInput
  | malformedText
  | expectedBool
  | expectedOption
  | lengthNotMinimal
  | lengthTooLarge
  | sequenceTooLong (length : Nat)
  | keysOutOfOrder
  | variantUnknown (index count : Nat)
  | tooDeep (container : String)
  deriving DecidableEq, Repr, Inhabited

def Error.message : Error → String
  | .endOfInput => "unexpected end of input"
  | .remainingInput => "remaining input"
  | .malformedText => "malformed utf8"
  | .expectedBool => "expected boolean"
  | .expectedOption => "expected option type"
  | .lengthNotMinimal => "ULEB128 encoding was not minimal in size"
  | .lengthTooLarge => "ULEB128-encoded integer did not fit in the target size"
  | .sequenceTooLong length => "exceeded max sequence length: " ++ toString length
  | .keysOutOfOrder => "keys of serialized maps must be unique and in increasing order"
  | .variantUnknown index count =>
    "invalid value: integer `" ++ toString index ++ "`, expected variant index 0 <= i < "
      ++ toString count
  | .tooDeep container => "exceeded max container depth while entering: " ++ container

abbrev Encoded := Except Error Bytes

abbrev Decoder (α : Type) := Bytes → Except Error (α × Bytes)

/-- The greatest length of a text, a list or a map. -/
def maxLength : Nat := 0x7fffffff

def maxDepth : Nat := 500

/-! ## Groups of seven bits -/

/-- `n` in at most `further + 1` groups. -/
def groups : (further : Nat) → Nat → Bytes
  | 0, n => [n.toUInt8]
  | further + 1, n =>
    if n < 128 then [n.toUInt8] else (n % 128 + 128).toUInt8 :: groups further (n / 128)

/-- Indices and lengths are below this number: five groups are enough. -/
def indexLimit : Nat := 0x100000000

def index (n : Nat) : Bytes := groups 4 n

def decodeGroups : (left : Nat) → (first : Bool) → Decoder Nat
  | 0, _, _ => .error .lengthTooLarge
  | _ + 1, _, [] => .error .endOfInput
  | left + 1, first, b :: rest =>
    if b.toNat < 128 then
      if b = 0 && !first then .error .lengthNotMinimal else .ok (b.toNat, rest)
    else do
      let (n, rest) ← decodeGroups left false rest
      .ok (b.toNat - 128 + 128 * n, rest)

def decodeIndex : Decoder Nat := fun bytes => do
  let (n, rest) ← decodeGroups 5 true bytes
  if n < indexLimit then .ok (n, rest) else .error .lengthTooLarge

def length (n : Nat) : Encoded :=
  if n ≤ maxLength then .ok (index n) else .error (.sequenceTooLong n)

def decodeLength : Decoder Nat := fun bytes => do
  let (n, rest) ← decodeIndex bytes
  if n ≤ maxLength then .ok (n, rest) else .error (.sequenceTooLong n)

/-- The index of one of `count` variants. -/
def decodeVariant (count : Nat) : Decoder Nat := fun bytes => do
  let (n, rest) ← decodeIndex bytes
  if n < count then .ok (n, rest) else .error (.variantUnknown n count)

/-! ## Numbers of a fixed width -/

/-- The lowest `width` bytes of `n`, lowest first. -/
def little : (width : Nat) → Nat → Bytes
  | 0, _ => []
  | width + 1, n => n.toUInt8 :: little width (n / 256)

def decodeLittle : (width : Nat) → Decoder Nat
  | 0, bytes => .ok (0, bytes)
  | _ + 1, [] => .error .endOfInput
  | width + 1, b :: rest => do
    let (n, rest) ← decodeLittle width rest
    .ok (b.toNat + 256 * n, rest)

def word16 (n : UInt16) : Bytes := little 2 n.toNat

def word32 (n : UInt32) : Bytes := little 4 n.toNat

def int64 (n : Int64) : Bytes := little 8 n.toUInt64.toNat

def decodeWord16 : Decoder UInt16 := fun bytes => do
  let (n, rest) ← decodeLittle 2 bytes
  .ok (.ofNat n, rest)

def decodeWord32 : Decoder UInt32 := fun bytes => do
  let (n, rest) ← decodeLittle 4 bytes
  .ok (.ofNat n, rest)

def decodeInt64 : Decoder Int64 := fun bytes => do
  let (n, rest) ← decodeLittle 8 bytes
  .ok ((UInt64.ofNat n).toInt64, rest)

def bool (b : Bool) : Bytes := [if b then 1 else 0]

def decodeBool : Decoder Bool
  | [] => .error .endOfInput
  | b :: rest =>
    if b = 0 then .ok (false, rest)
    else if b = 1 then .ok (true, rest)
    else .error .expectedBool

/-! ## Texts, options, sequences and maps -/

def take : (count : Nat) → Decoder Bytes
  | 0, bytes => .ok ([], bytes)
  | _ + 1, [] => .error .endOfInput
  | count + 1, b :: rest => do
    let (taken, rest) ← take count rest
    .ok (b :: taken, rest)

def bytes (content : Bytes) : Encoded := do
  return (← length content.length) ++ content

def decodeBytes : Decoder Bytes := fun bytes => do
  let (n, rest) ← decodeLength bytes
  take n rest

def text (s : String) : Encoded := bytes (Utf8.encode s)

def decodeText : Decoder String := fun bytes => do
  let (content, rest) ← decodeBytes bytes
  match Utf8.decode? content with
  | some s => .ok (s, rest)
  | none => .error .malformedText

def option {α : Type} (value : α → Encoded) : Option α → Encoded
  | none => .ok [0]
  | some a => do return 1 :: (← value a)

def decodeOption {α : Type} (value : Decoder α) : Decoder (Option α)
  | [] => .error .endOfInput
  | b :: rest =>
    if b = 0 then .ok (none, rest)
    else if b = 1 then do
      let (a, rest) ← value rest
      .ok (some a, rest)
    else .error .expectedOption

def items {α : Type} (item : α → Encoded) : List α → Encoded
  | [] => .ok []
  | a :: as => do return (← item a) ++ (← items item as)

def sequence {α : Type} (item : α → Encoded) (as : List α) : Encoded := do
  return (← length as.length) ++ (← items item as)

def decodeItems {α : Type} (item : Decoder α) : (count : Nat) → Decoder (List α)
  | 0, bytes => .ok ([], bytes)
  | count + 1, bytes => do
    let (a, rest) ← item bytes
    let (as, rest) ← decodeItems item count rest
    .ok (a :: as, rest)

def decodeSequence {α : Type} (item : Decoder α) : Decoder (List α) := fun bytes => do
  let (n, rest) ← decodeLength bytes
  decodeItems item n rest

/-- Each entry as the bytes of its key and the bytes of its value. -/
def entries {α : Type} (value : α → Encoded) :
    List (String × α) → Except Error (List (Bytes × Bytes))
  | [] => .ok []
  | (key, a) :: rest => do return (← text key, ← value a) :: (← entries value rest)

def map {α : Type} (value : α → Encoded) (as : List (String × α)) : Encoded := do
  let sorted := (← entries value as).mergeSort fun a b => a.1 ≤ b.1
  return (← length sorted.length) ++ sorted.flatMap fun (key, a) => key ++ a

/-- Entries whose keys follow `last`: each key is checked before its value is read. -/
def decodeEntries {α : Type} (value : Decoder α) :
    (count : Nat) → (last : Option Bytes) → Decoder (List (String × α))
  | 0, _, bytes => .ok ([], bytes)
  | count + 1, last, bytes => do
    let (key, rest) ← decodeText bytes
    let keyBytes ← text key
    if last.any fun last => !(last < keyBytes) then .error .keysOutOfOrder
    else do
      let (a, rest) ← value rest
      let (as, rest) ← decodeEntries value count (some keyBytes) rest
      .ok ((key, a) :: as, rest)

def decodeMap {α : Type} (value : Decoder α) : Decoder (List (String × α)) := fun bytes => do
  let (n, rest) ← decodeLength bytes
  decodeEntries value n none rest

/-- What is decoded must be all there is. -/
def complete {α : Type} (value : Decoder α) (bytes : Bytes) : Except Error α := do
  let (a, rest) ← value bytes
  if rest = [] then .ok a else .error .remainingInput

end Mixins.Wire
