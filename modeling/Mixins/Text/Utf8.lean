/-!
# UTF-8

Text as bytes. `encode` and `decode?` are strict: only the shortest forms of Unicode scalar values
are text. `decodeLossy` reads any bytes: each longest run of bytes that starts a character and
cannot go on counts as one U+FFFD.

Principal statements: `decode?_encode` and `encode_of_decode?` — strict reading accepts exactly what
writing produces.
-/

namespace Mixins.Utf8

abbrev Bytes := List UInt8

def encode (s : String) : Bytes :=
  s.toByteArray.data.toList

def decode? (bytes : Bytes) : Option String :=
  String.fromUTF8? bytes.toByteArray

theorem decode?_encode (s : String) : decode? (encode s) = some s := by
  have h : (encode s).toByteArray = s.toByteArray := by
    apply ByteArray.ext
    simp [encode]
  unfold decode?
  rw [h, String.fromUTF8?]
  simp [s.isValidUTF8, String.fromUTF8]

theorem encode_of_decode? {bytes : Bytes} {s : String} (h : decode? bytes = some s) :
    encode s = bytes := by
  unfold decode? String.fromUTF8? at h
  split at h
  · cases h
    simp [encode, String.fromUTF8]
  · cases h

/-- How many bytes a character has whose first byte is `b`; 0 if none starts so. -/
def width (b : UInt8) : Nat :=
  if b < 0x80 then 1
  else if b < 0xc2 then 0
  else if b < 0xe0 then 2
  else if b < 0xf0 then 3
  else if b < 0xf5 then 4
  else 0

/-- Whether `second` may follow `first`: shortest forms only, no surrogate, nothing above U+10FFFF.
-/
def secondFits (first second : UInt8) : Bool :=
  let low : UInt8 := if first = 0xe0 then 0xa0 else if first = 0xf0 then 0x90 else 0x80
  let high : UInt8 := if first = 0xed then 0x9f else if first = 0xf4 then 0x8f else 0xbf
  low ≤ second && second ≤ high

def continues (b : UInt8) : Bool :=
  0x80 ≤ b && b ≤ 0xbf

/-- How many of the bytes after `first` go on with its character, of the `count` it needs. -/
def following (first : UInt8) (count : Nat) (rest : Bytes) : Nat :=
  match count, rest with
  | 0, _ | _, [] => 0
  | count + 1, second :: rest =>
    if secondFits first second then 1 + ((rest.take count).takeWhile continues).length else 0

/-- The character whose first byte is `first` and whose other bytes are `rest`. -/
def assemble (first : UInt8) (rest : Bytes) : Char :=
  let lead := match rest.length with
    | 0 => first.toNat
    | 1 => first.toNat % 0x20
    | 2 => first.toNat % 0x10
    | _ => first.toNat % 0x08
  Char.ofNat (rest.foldl (fun code b => code * 64 + b.toNat % 64) lead)

def decodeLossyChars : Bytes → List Char
  | [] => []
  | first :: rest =>
    let need := width first - 1
    let got := following first need rest
    if width first = 0 then '\ufffd' :: decodeLossyChars rest
    else if got = need then assemble first (rest.take need) :: decodeLossyChars (rest.drop need)
    else '\ufffd' :: decodeLossyChars (rest.drop got)
termination_by bytes => bytes.length
decreasing_by all_goals (simp only [List.length_cons, List.length_drop]; omega)

/-- Text that stands for any bytes: equal to the text that they encode, if they do. -/
def decodeLossy (bytes : Bytes) : String :=
  String.ofList (decodeLossyChars bytes)

end Mixins.Utf8
