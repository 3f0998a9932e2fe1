import NoticeScan.Regex.Input

/-!
# Escapes

What a backslash and the character behind it stand for, inside a character class and outside.
-/

namespace NoticeScan.Regex

open NoticeScan.Text

/-- What an escape stands for. -/
inductive Escape where
  | point (x : Nat)
  | category (kind : Category) (negated : Bool)
  | anchor (c : Char)
  | group (index : Nat)
  deriving Repr, DecidableEq

/-- Whether a character is a digit of base eight. -/
def isOctal (c : Char) : Bool :=
  '0' ≤ c && c ≤ '7'

/-- Whether a character is a digit of base ten. -/
def isDecimal (c : Char) : Bool :=
  '0' ≤ c && c ≤ '9'

/-- Whether a character is a digit of base sixteen. -/
def isHex (c : Char) : Bool :=
  isDecimal c || ('a' ≤ c && c ≤ 'f') || ('A' ≤ c && c ≤ 'F')

/-- Whether a character is a letter from `A` to `Z` or from `a` to `z`. -/
def isPlainLetter (c : Char) : Bool :=
  ('a' ≤ c && c ≤ 'z') || ('A' ≤ c && c ≤ 'Z')

/-- The value of a digit of base sixteen or less. -/
def digitOf (c : Char) : Nat :=
  if isDecimal c then c.toNat - 0x30
  else if 'a' ≤ c then c.toNat - 0x61 + 10
  else c.toNat - 0x41 + 10

/-- The number that digits spell in a base. -/
def number (base : Nat) (digits : List Char) : Nat :=
  digits.foldl (fun value c => value * base + digitOf c) 0

/-- The categories with a letter of their own; a capital stands for the other characters. -/
def category? : Char → Option Escape
  | 'd' => some (.category .digit false)
  | 'D' => some (.category .digit true)
  | 's' => some (.category .space false)
  | 'S' => some (.category .space true)
  | 'w' => some (.category .word false)
  | 'W' => some (.category .word true)
  | _ => none

/-- The control characters with a letter of their own, and the backslash. -/
def control? : Char → Option Nat
  | 'a' => some 0x07
  | 'b' => some 0x08
  | 'f' => some 0x0C
  | 'n' => some 0x0A
  | 'r' => some 0x0D
  | 't' => some 0x09
  | 'v' => some 0x0B
  | '\\' => some 0x5C
  | _ => none

/-- The number of digits behind the letters that announce a code point in base sixteen. -/
def hexWidth? : Char → Option Nat
  | 'x' => some 2
  | 'u' => some 4
  | 'U' => some 8
  | _ => none

/-- A code point in base sixteen, with exactly `width` digits behind the letter. -/
def hexEscape (letter : Char) (width : Nat) (input : Input) :
    Except Error (Escape × Input) := do
  let (digits, behind) ← input.takeWhile isHex width
  let written := '\\' :: letter :: digits
  if digits.length ≠ width then
    (Fault.incompleteEscape written).at (behind.pos - written.length)
  else if 0x10FFFF < number 16 digits then
    (Fault.badEscape written).at (behind.pos - written.length)
  else
    .ok (.point (number 16 digits), behind)

/-- A code point by its name. Names are not part of the language, so none is known. -/
def namedEscape (input : Input) : Except Error (Escape × Input) := do
  match ← input.take? '\x7b' with
  | none => (Fault.missing "\x7b").at input.pos
  | some inside =>
      let (name, behind) ← inside.takeUntil '\x7d' "character name"
      (Fault.unknownCharacterName name).at (behind.pos - (name.length + 4))

/-- A code point in base eight, of which the digits are given. -/
def octalEscape (digits : List Char) (behind : Input) : Except Error (Escape × Input) :=
  if 0o377 < number 8 digits then
    (Fault.octalTooLarge ('\\' :: digits)).at (behind.pos - (digits.length + 1))
  else
    .ok (.point (number 8 digits), behind)

/-- The escape of a character that has no other meaning: itself, unless it is a letter or a
digit. -/
def selfEscape (c : Char) (behind : Input) : Except Error (Escape × Input) :=
  if isPlainLetter c || isDecimal c then
    (Fault.badEscape ['\\', c]).at (behind.pos - 2)
  else
    .ok (.point c.toNat, behind)

/-- An escape inside a character class. -/
def classEscape (c : Char) (input : Input) : Except Error (Escape × Input) :=
  match control? c, category? c, hexWidth? c with
  | some x, _, _ => .ok (.point x, input)
  | _, some category, _ => .ok (category, input)
  | _, _, some width => hexEscape c width input
  | _, _, _ =>
      if c == 'N' then
        namedEscape input
      else if isOctal c then do
        let (more, behind) ← input.takeWhile isOctal 2
        octalEscape (c :: more) behind
      else
        selfEscape c input

/-- The escapes that stand for a position. -/
def isAnchorLetter (c : Char) : Bool :=
  c == 'A' || c == 'b' || c == 'B' || c == 'Z'

/-- A digit other than zero behind a backslash: three digits of base eight are a code point, one
or two digits are the number of a group. -/
def numberEscape (c : Char) (input : Input) : Except Error (Escape × Input) := do
  let (second, behind) ← input.takeWhile isDecimal 1
  match second with
  | [] => .ok (.group (digitOf c), behind)
  | d :: _ =>
      if isOctal c && isOctal d then
        let (third, last) ← behind.takeWhile isOctal 1
        match third with
        | [] => .ok (.group (number 10 [c, d]), behind)
        | e :: _ => octalEscape [c, d, e] last
      else
        .ok (.group (number 10 [c, d]), behind)

/-- An escape outside character classes. -/
def outerEscape (c : Char) (input : Input) : Except Error (Escape × Input) :=
  if isAnchorLetter c then
    .ok (.anchor c, input)
  else
    match category? c, control? c, hexWidth? c with
    | some category, _, _ => .ok (category, input)
    | _, some x, _ => .ok (.point x, input)
    | _, _, some width => hexEscape c width input
    | _, _, _ =>
        if c == 'N' then
          namedEscape input
        else if c == '0' then do
          let (more, behind) ← input.takeWhile isOctal 2
          octalEscape (c :: more) behind
        else if isDecimal c then
          numberEscape c input
        else
          selfEscape c input

end NoticeScan.Regex
