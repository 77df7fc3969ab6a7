import Mixins.Hex

/-!
# SHA-256

The digest of FIPS 180-4: the message is padded to whole blocks of 64 bytes, and the state of eight
words runs through 64 rounds for each block.
-/

namespace Mixins.Sha256

/-- The first 32 bits of the fractions of the cube roots of the first 64 primes. -/
def roundConstants : List UInt32 :=
  [0x428a2f98, 0x71374491, 0xb5c0fbcf, 0xe9b5dba5, 0x3956c25b, 0x59f111f1, 0x923f82a4, 0xab1c5ed5,
   0xd807aa98, 0x12835b01, 0x243185be, 0x550c7dc3, 0x72be5d74, 0x80deb1fe, 0x9bdc06a7, 0xc19bf174,
   0xe49b69c1, 0xefbe4786, 0x0fc19dc6, 0x240ca1cc, 0x2de92c6f, 0x4a7484aa, 0x5cb0a9dc, 0x76f988da,
   0x983e5152, 0xa831c66d, 0xb00327c8, 0xbf597fc7, 0xc6e00bf3, 0xd5a79147, 0x06ca6351, 0x14292967,
   0x27b70a85, 0x2e1b2138, 0x4d2c6dfc, 0x53380d13, 0x650a7354, 0x766a0abb, 0x81c2c92e, 0x92722c85,
   0xa2bfe8a1, 0xa81a664b, 0xc24b8b70, 0xc76c51a3, 0xd192e819, 0xd6990624, 0xf40e3585, 0x106aa070,
   0x19a4c116, 0x1e376c08, 0x2748774c, 0x34b0bcb5, 0x391c0cb3, 0x4ed8aa4a, 0x5b9cca4f, 0x682e6ff3,
   0x748f82ee, 0x78a5636f, 0x84c87814, 0x8cc70208, 0x90befffa, 0xa4506ceb, 0xbef9a3f7, 0xc67178f2]

structure State where
  a : UInt32
  b : UInt32
  c : UInt32
  d : UInt32
  e : UInt32
  f : UInt32
  g : UInt32
  h : UInt32

/-- The first 32 bits of the fractions of the square roots of the first 8 primes. -/
def State.start : State :=
  ⟨0x6a09e667, 0xbb67ae85, 0x3c6ef372, 0xa54ff53a, 0x510e527f, 0x9b05688c, 0x1f83d9ab, 0x5be0cd19⟩

def State.words (s : State) : List UInt32 := [s.a, s.b, s.c, s.d, s.e, s.f, s.g, s.h]

def State.add (s t : State) : State :=
  ⟨s.a + t.a, s.b + t.b, s.c + t.c, s.d + t.d, s.e + t.e, s.f + t.f, s.g + t.g, s.h + t.h⟩

def rotate (n x : UInt32) : UInt32 := (x >>> n) ||| (x <<< (32 - n))

def State.round (s : State) (word constant : UInt32) : State :=
  let sum1 := rotate 6 s.e ^^^ rotate 11 s.e ^^^ rotate 25 s.e
  let choice := (s.e &&& s.f) ^^^ (~~~s.e &&& s.g)
  let first := s.h + sum1 + choice + constant + word
  let sum0 := rotate 2 s.a ^^^ rotate 13 s.a ^^^ rotate 22 s.a
  let majority := (s.a &&& s.b) ^^^ (s.a &&& s.c) ^^^ (s.b &&& s.c)
  ⟨first + (sum0 + majority), s.a, s.b, s.c, s.d + first, s.e, s.f, s.g⟩

/-- The next word of a schedule whose last sixteen words are in the list, latest first. -/
def nextWord : List UInt32 → UInt32
  | [_, w2, _, _, _, _, w7, _, _, _, _, _, _, _, w15, w16] =>
    let small0 := rotate 7 w15 ^^^ rotate 18 w15 ^^^ (w15 >>> 3)
    let small1 := rotate 17 w2 ^^^ rotate 19 w2 ^^^ (w2 >>> 10)
    small1 + w7 + small0 + w16
  | _ => 0

/-- `count` further words of the schedule whose last sixteen words are `recent`, latest first. -/
def schedule : Nat → List UInt32 → List UInt32
  | 0, _ => []
  | count + 1, recent =>
    let word := nextWord recent
    word :: schedule count (word :: recent.take 15)

def wordsOf : List UInt8 → List UInt32
  | b0 :: b1 :: b2 :: b3 :: rest =>
    ((b0.toUInt32 <<< 24) ||| (b1.toUInt32 <<< 16) ||| (b2.toUInt32 <<< 8) ||| b3.toUInt32)
      :: wordsOf rest
  | _ => []

def State.block (s : State) (bytes : List UInt8) : State :=
  let words := wordsOf bytes
  let words := words ++ schedule 48 words.reverse
  s.add ((words.zip roundConstants).foldl (fun t (word, constant) => t.round word constant) s)

/-- The state after `count` blocks. -/
def State.blocks (s : State) : Nat → List UInt8 → State
  | 0, _ => s
  | count + 1, bytes => (s.block (bytes.take 64)).blocks count (bytes.drop 64)

/-- The lowest `width` bytes of `n`, the highest of them first. -/
def bytesBE : (width : Nat) → Nat → List UInt8
  | 0, _ => []
  | width + 1, n => bytesBE width (n / 256) ++ [n.toUInt8]

/-- One bit, then zeros, then the length in bits: the result fills whole blocks. -/
def pad (message : List UInt8) : List UInt8 :=
  let zeros := (119 - message.length % 64) % 64
  message ++ 0x80 :: List.replicate zeros 0 ++ bytesBE 8 (8 * message.length)

def digest (message : List UInt8) : List UInt8 :=
  let padded := pad message
  (State.start.blocks (padded.length / 64) padded).words.flatMap fun w => bytesBE 4 w.toNat

def hex (message : List UInt8) : String := Hex.encode (digest message)

end Mixins.Sha256
