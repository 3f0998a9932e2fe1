/-!
# UTF-8 with malformed bytes

A machine reads bytes one at a time. It hands out the character of every well-formed sequence
and, one by one, every byte that belongs to none; a sequence that is still incomplete stays in
the state. Since the state holds all that matters of the bytes before, it makes no difference in
which pieces the bytes arrive.
-/

namespace NoticeScan.Text

/-- What a text is decoded to: characters, and bytes that belong to no well-formed sequence. -/
inductive Glyph where
  | char (c : Char)
  | stray (b : UInt8)
  deriving Repr, DecidableEq

namespace Utf8

/-- The start of a sequence: its bytes so far, how many are missing, the number that the bytes
stand for, and the range of the next byte. -/
structure Partial where
  bytes : List UInt8
  missing : Nat
  value : Nat
  low : Nat := 0x80
  high : Nat := 0xBF
  deriving Repr, DecidableEq

/-- The state of the machine: a started sequence, or nothing. -/
abbrev State := Option Partial

/-- A byte where a sequence may start. -/
def start (b : UInt8) : List Glyph × State :=
  let n := b.toNat
  if n < 0x80 then ([.char (Char.ofNat n)], none)
  else if n < 0xC2 then ([.stray b], none)
  else if n < 0xE0 then ([], some { bytes := [b], missing := 1, value := n - 0xC0 })
  else if n == 0xE0 then ([], some { bytes := [b], missing := 2, value := 0, low := 0xA0 })
  else if n == 0xED then ([], some { bytes := [b], missing := 2, value := 13, high := 0x9F })
  else if n < 0xF0 then ([], some { bytes := [b], missing := 2, value := n - 0xE0 })
  else if n == 0xF0 then ([], some { bytes := [b], missing := 3, value := 0, low := 0x90 })
  else if n == 0xF4 then ([], some { bytes := [b], missing := 3, value := 4, high := 0x8F })
  else if n < 0xF4 then ([], some { bytes := [b], missing := 3, value := n - 0xF0 })
  else ([.stray b], none)

/-- The bytes of a started sequence that is not completed. -/
def abandon : State → List Glyph
  | none => []
  | some seq => seq.bytes.map .stray

/-- One byte. A byte that does not go on with the started sequence may start another one. -/
def step (state : State) (b : UInt8) : List Glyph × State :=
  match state with
  | none => start b
  | some seq =>
      if seq.low ≤ b.toNat && b.toNat ≤ seq.high then
        let value := seq.value * 64 + (b.toNat - 0x80)
        if seq.missing == 1 then
          ([.char (Char.ofNat value)], none)
        else
          ([], some { bytes := seq.bytes ++ [b], missing := seq.missing - 1, value := value })
      else
        let (found, next) := start b
        (abandon state ++ found, next)

/-- What bytes are decoded to in a state, and the state behind them; `found` is what has been
decoded before, the last first. -/
def feedFrom : State → List Glyph → List UInt8 → List Glyph × State
  | state, found, [] => (found.reverse, state)
  | state, found, b :: rest =>
      let (more, next) := step state b
      feedFrom next (more.reverse ++ found) rest

/-- What bytes are decoded to in a state, and the state behind them. -/
def feed (state : State) (bytes : List UInt8) : List Glyph × State :=
  feedFrom state [] bytes

/-- What a whole sequence of bytes is decoded to. -/
def decode (bytes : List UInt8) : List Glyph :=
  let (found, state) := feed none bytes
  found ++ abandon state

/-- The characters of glyphs that are all characters. -/
def chars? (glyphs : List Glyph) : Option (List Char) :=
  glyphs.mapM fun glyph =>
    match glyph with
    | .char c => some c
    | .stray _ => none

/-- The text of well-formed bytes. -/
def decode? (bytes : List UInt8) : Option (List Char) :=
  chars? (decode bytes)

/-- The bytes of a character. -/
def encodeChar (c : Char) : List UInt8 :=
  let n := c.toNat
  if n < 0x80 then [n.toUInt8]
  else if n < 0x800 then [(0xC0 + n / 64).toUInt8, (0x80 + n % 64).toUInt8]
  else if n < 0x10000 then
    [(0xE0 + n / 4096).toUInt8, (0x80 + n / 64 % 64).toUInt8, (0x80 + n % 64).toUInt8]
  else
    [(0xF0 + n / 262144).toUInt8, (0x80 + n / 4096 % 64).toUInt8,
      (0x80 + n / 64 % 64).toUInt8, (0x80 + n % 64).toUInt8]

/-- The bytes of a text. -/
def encode (s : List Char) : List UInt8 :=
  s.flatMap encodeChar

end Utf8

end NoticeScan.Text
