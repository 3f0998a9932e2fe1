/-!
# SHA-256

The digest of a sequence of bytes. The sequence is padded to blocks of sixteen words of 32 bits;
each block is stretched to 64 words, with which the state of eight words is stirred.
-/

namespace NoticeScan.Sha256

/-- The round constants: the first 32 bits behind the point of the cube roots of the first 64
primes. -/
def roundConstants : List UInt32 :=
  [ 0x428a2f98, 0x71374491, 0xb5c0fbcf, 0xe9b5dba5, 0x3956c25b, 0x59f111f1,
    0x923f82a4, 0xab1c5ed5, 0xd807aa98, 0x12835b01, 0x243185be, 0x550c7dc3,
    0x72be5d74, 0x80deb1fe, 0x9bdc06a7, 0xc19bf174, 0xe49b69c1, 0xefbe4786,
    0x0fc19dc6, 0x240ca1cc, 0x2de92c6f, 0x4a7484aa, 0x5cb0a9dc, 0x76f988da,
    0x983e5152, 0xa831c66d, 0xb00327c8, 0xbf597fc7, 0xc6e00bf3, 0xd5a79147,
    0x06ca6351, 0x14292967, 0x27b70a85, 0x2e1b2138, 0x4d2c6dfc, 0x53380d13,
    0x650a7354, 0x766a0abb, 0x81c2c92e, 0x92722c85, 0xa2bfe8a1, 0xa81a664b,
    0xc24b8b70, 0xc76c51a3, 0xd192e819, 0xd6990624, 0xf40e3585, 0x106aa070,
    0x19a4c116, 0x1e376c08, 0x2748774c, 0x34b0bcb5, 0x391c0cb3, 0x4ed8aa4a,
    0x5b9cca4f, 0x682e6ff3, 0x748f82ee, 0x78a5636f, 0x84c87814, 0x8cc70208,
    0x90befffa, 0xa4506ceb, 0xbef9a3f7, 0xc67178f2 ]

/-- The eight words of the state. -/
structure State where
  a : UInt32
  b : UInt32
  c : UInt32
  d : UInt32
  e : UInt32
  f : UInt32
  g : UInt32
  h : UInt32
  deriving Repr, DecidableEq

/-- The state at the start: the first 32 bits behind the point of the square roots of the first
eight primes. -/
def initial : State where
  a := 0x6a09e667
  b := 0xbb67ae85
  c := 0x3c6ef372
  d := 0xa54ff53a
  e := 0x510e527f
  f := 0x9b05688c
  g := 0x1f83d9ab
  h := 0x5be0cd19

/-- A word turned to the right. -/
def rotate (x : UInt32) (count : UInt32) : UInt32 :=
  (x >>> count) ||| (x <<< (32 - count))

/-- The word of four bytes, the most significant first. -/
def word (a b c d : UInt8) : UInt32 :=
  (a.toUInt32 <<< 24) ||| (b.toUInt32 <<< 16) ||| (c.toUInt32 <<< 8) ||| d.toUInt32

/-- The words of a sequence of bytes. -/
def words : List UInt8 → List UInt32
  | a :: b :: c :: d :: rest => word a b c d :: words rest
  | _ => []

/-- The `count` low bytes of a number, the most significant first. -/
def bigEndian (count n : Nat) : List UInt8 :=
  ((List.range count).map fun place => (n / Nat.pow 256 place).toUInt8).reverse

/-- The bytes with a one bit, zeros and the length in bits behind them, which fill whole
blocks. -/
def padded (bytes : List UInt8) : List UInt8 :=
  let zeros := (119 - bytes.length % 64) % 64
  bytes ++ 0x80 :: List.replicate zeros 0 ++ bigEndian 8 (bytes.length * 8)

/-- Sixteen words stretched by `count` more, the last one first. -/
def stretch : Nat → List UInt32 → List UInt32
  | 0, found => found
  | count + 1, found =>
      let x := found.getD 14 0
      let y := found.getD 1 0
      let low := rotate x 7 ^^^ rotate x 18 ^^^ (x >>> 3)
      let high := rotate y 17 ^^^ rotate y 19 ^^^ (y >>> 10)
      stretch count ((found.getD 15 0 + low + found.getD 6 0 + high) :: found)

/-- One round with a constant and a word. -/
def stir (s : State) (input : UInt32 × UInt32) : State :=
  let sum := rotate s.e 6 ^^^ rotate s.e 11 ^^^ rotate s.e 25
  let choice := (s.e &&& s.f) ^^^ (~~~s.e &&& s.g)
  let first := s.h + sum + choice + input.1 + input.2
  let other := rotate s.a 2 ^^^ rotate s.a 13 ^^^ rotate s.a 22
  let majority := (s.a &&& s.b) ^^^ (s.a &&& s.c) ^^^ (s.b &&& s.c)
  { a := first + (other + majority), b := s.a, c := s.b, d := s.c
    e := s.d + first, f := s.e, g := s.f, h := s.g }

/-- The state behind a block of sixteen words. -/
def absorb (s : State) (block : List UInt32) : State :=
  let schedule := (stretch 48 block.reverse).reverse
  let t := (roundConstants.zip schedule).foldl stir s
  { a := s.a + t.a, b := s.b + t.b, c := s.c + t.c, d := s.d + t.d
    e := s.e + t.e, f := s.f + t.f, g := s.g + t.g, h := s.h + t.h }

/-- The state behind all whole blocks, of which there are at most `count`. -/
def absorbAll : Nat → State → List UInt32 → State
  | 0, s, _ => s
  | count + 1, s, rest => absorbAll count (absorb s (rest.take 16)) (rest.drop 16)

/-- The digest as words. -/
def digestWords (bytes : List UInt8) : List UInt32 :=
  let stream := words (padded bytes)
  let s := absorbAll (stream.length / 16) initial stream
  [s.a, s.b, s.c, s.d, s.e, s.f, s.g, s.h]

/-- A word in eight digits of base sixteen. -/
def hexWord (x : UInt32) : List Char :=
  ((List.range 8).map fun place => Nat.digitChar (x.toNat / Nat.pow 16 place % 16)).reverse

/-- The digest in digits of base sixteen. -/
def hexDigest (bytes : List UInt8) : String :=
  String.ofList ((digestWords bytes).flatMap hexWord)

end NoticeScan.Sha256
