/-!
# Hexadecimal text

Bytes as pairs of lower-case hexadecimal digits.

Principal statements: `decode?_encode` — reading undoes writing.
-/

namespace Mixins.Hex

def digit (n : Nat) : Char :=
  if n < 10 then Char.ofNat (48 + n) else Char.ofNat (87 + n)

def value? (c : Char) : Option Nat :=
  if '0' ≤ c ∧ c ≤ '9' then some (c.toNat - 48)
  else if 'a' ≤ c ∧ c ≤ 'f' then some (c.toNat - 87)
  else if 'A' ≤ c ∧ c ≤ 'F' then some (c.toNat - 55)
  else none

def encodeChars : List UInt8 → List Char
  | [] => []
  | b :: rest => digit (b.toNat / 16) :: digit (b.toNat % 16) :: encodeChars rest

def decodeChars? : List Char → Option (List UInt8)
  | [] => some []
  | [_] => none
  | high :: low :: rest => do
    return (16 * (← value? high) + (← value? low)).toUInt8 :: (← decodeChars? rest)

theorem value?_digit {n : Nat} (h : n < 16) : value? (digit n) = some n := by
  have : ∀ k : Fin 16, value? (digit k.val) = some k.val := by decide
  exact this ⟨n, h⟩

theorem decodeChars?_encodeChars (bytes : List UInt8) :
    decodeChars? (encodeChars bytes) = some bytes := by
  induction bytes with
  | nil => rfl
  | cons b rest ih =>
    have hb := b.toNat_lt
    have high : value? (digit (b.toNat / 16)) = some (b.toNat / 16) := value?_digit (by omega)
    have low : value? (digit (b.toNat % 16)) = some (b.toNat % 16) := value?_digit (by omega)
    have whole : (16 * (b.toNat / 16) + b.toNat % 16).toUInt8 = b := by
      rw [show 16 * (b.toNat / 16) + b.toNat % 16 = b.toNat by omega]
      simp
    simp only [encodeChars, decodeChars?, high, low, ih]
    exact congrArg (fun c => some (c :: rest)) whole

def encode (bytes : List UInt8) : String := String.ofList (encodeChars bytes)

def decode? (text : String) : Option (List UInt8) := decodeChars? text.toList

theorem decode?_encode (bytes : List UInt8) : decode? (encode bytes) = some bytes := by
  simp [decode?, encode, decodeChars?_encodeChars]

end Mixins.Hex
