import NoticeScan.Json.Value

/-!
# Reading JSON

The strict format: exactly one value with blanks around it, no comments, no trailing commas, no
control characters in strings and no halves of surrogate pairs. Of several fields with one name
the last value counts, but all are read. What becomes of an integer is up to the reader of the
text.
-/

namespace NoticeScan.Json

/-- What has been read, and the text behind it. -/
abbrev Read (α : Type) := Option (α × List Char)

/-- Whether a character may stand between tokens. -/
def isLayout (c : Char) : Bool :=
  c == ' ' || c == '\t' || c == '\n' || c == '\r'

/-- A text without the layout at its start. -/
def skipLayout (s : List Char) : List Char :=
  s.dropWhile isLayout

/-! ## Strings -/

/-- The value of a digit of base sixteen. -/
def hexValue? (c : Char) : Option Nat :=
  if '0' ≤ c && c ≤ '9' then some (c.toNat - 0x30)
  else if 'a' ≤ c && c ≤ 'f' then some (c.toNat - 0x61 + 10)
  else if 'A' ≤ c && c ≤ 'F' then some (c.toNat - 0x41 + 10)
  else none

/-- The number of four digits of base sixteen. -/
def hexUnit? (a b c d : Char) : Option Nat := do
  let a ← hexValue? a
  let b ← hexValue? b
  let c ← hexValue? c
  let d ← hexValue? d
  return ((a * 16 + b) * 16 + c) * 16 + d

/-- The character that a backslash and a letter stand for. -/
def letterEscape? : Char → Option Char
  | '"' => some '"'
  | '\\' => some '\\'
  | '/' => some '/'
  | 'b' => some '\x08'
  | 'f' => some '\x0c'
  | 'n' => some '\n'
  | 'r' => some '\r'
  | 't' => some '\t'
  | _ => none

/-- What a unit of four digits means behind an optional first half of a pair: a character, or a
first half that waits for the second. -/
def joinUnit? (half : Option Nat) (unit : Nat) : Option (Option Nat × Option Char) :=
  match half with
  | some first =>
      if 0xDC00 ≤ unit && unit < 0xE000 then
        some (none, some (Char.ofNat (0x10000 + (first - 0xD800) * 0x400 + (unit - 0xDC00))))
      else
        none
  | none =>
      if 0xD800 ≤ unit && unit < 0xDC00 then some (some unit, none)
      else if 0xDC00 ≤ unit && unit < 0xE000 then none
      else some (none, some (Char.ofNat unit))

/-- A string behind its opening quote. `half` is the first half of a pair that has just been
read, `found` are the characters before, the last one first. -/
def stringFrom : List Char → (half : Option Nat) → (found : List Char) → Read (List Char)
  | '"' :: rest, none, found => some (found.reverse, rest)
  | '\\' :: 'u' :: a :: b :: c :: d :: rest, half, found =>
      match hexUnit? a b c d with
      | none => none
      | some unit =>
          match joinUnit? half unit with
          | none => none
          | some (half, char) => stringFrom rest half (char.toList ++ found)
  | '\\' :: e :: rest, none, found =>
      match letterEscape? e with
      | none => none
      | some c => stringFrom rest none (c :: found)
  | c :: rest, none, found =>
      if c.toNat < 0x20 || c == '\\' then none else stringFrom rest none (c :: found)
  | _, _, _ => none

/-! ## Numbers -/

/-- The digits at the start of a text. -/
def takeDigits (s : List Char) : List Char × List Char :=
  s.span fun c => '0' ≤ c && c ≤ '9'

/-- The number that digits spell. -/
def digitsValue (ds : List Char) : Nat :=
  ds.foldl (fun n c => n * 10 + (c.toNat - 0x30)) 0

/-- The digits behind a point, if there is one; a point needs digits. -/
def fraction? (s : List Char) : Read (Option (List Char)) :=
  match s with
  | '.' :: rest =>
      match takeDigits rest with
      | ([], _) => none
      | (ds, behind) => some (some ds, behind)
  | _ => some (none, s)

/-- The exponent, if there is one; it needs digits. -/
def exponent? (s : List Char) : Read (Option Int) :=
  let unsigned (rest : List Char) (sign : Int) : Read (Option Int) :=
    match takeDigits rest with
    | ([], _) => none
    | (ds, behind) => some (some (sign * digitsValue ds), behind)
  match s with
  | c :: rest =>
      if c == 'e' || c == 'E' then
        match rest with
        | '+' :: more => unsigned more 1
        | '-' :: more => unsigned more (-1)
        | _ => unsigned rest 1
      else
        some (none, s)
  | [] => some (none, s)

/-- An integer as it is. -/
def exactInteger (n : Int) : Option Json :=
  some (.int n)

/-- An integer of 64 bits, with a sign or without; a decimal for any other, unless it is too great
for that. -/
def narrowInteger (n : Int) : Option Json :=
  if fits n then some (.int n)
  else if overflows n.natAbs 0 then none
  else some (.decimal n 0)

/-- A number. The first digit is zero only if it is the only one before the point. -/
def number? (integer : Int → Option Json) (s : List Char) : Read Json :=
  let (negative, unsigned) :=
    match s with
    | '-' :: rest => (true, rest)
    | _ => (false, s)
  match takeDigits unsigned with
  | ([], _) => none
  | (whole, behind) =>
      if whole.length != 1 && whole.head? == some '0' then
        none
      else
        let sign : Int := if negative then -1 else 1
        match fraction? behind with
        | none => none
        | some (fraction, behind) =>
            match exponent? behind with
            | none => none
            | some (exponent, behind) =>
                if fraction.isNone && exponent.isNone then
                  (integer (sign * digitsValue whole)).map fun value => (value, behind)
                else
                  let places := fraction.getD []
                  let mantissa := digitsValue (whole ++ places)
                  let power := exponent.getD 0 - places.length
                  if overflows mantissa power then none
                  else some (.decimal (sign * mantissa) power, behind)

/-! ## Values -/

/-- A text without a word at its start. -/
def word? (word : List Char) (value : Json) (s : List Char) : Read Json :=
  if word.isPrefixOf s then some (value, s.drop word.length) else none

mutual

/-- A value at the start of a text, read with a bound on the nesting and the length. -/
def valueFrom (integer : Int → Option Json) : Nat → List Char → Read Json
  | 0, _ => none
  | steps + 1, s =>
      match skipLayout s with
      | '"' :: rest =>
          (stringFrom rest none []).map fun (text, behind) =>
            (.string (String.ofList text), behind)
      | '[' :: rest =>
          match skipLayout rest with
          | ']' :: behind => some (.array [], behind)
          | _ => itemsFrom integer steps [] rest
      | '\x7b' :: rest =>
          match skipLayout rest with
          | '\x7d' :: behind => some (.object [], behind)
          | _ => fieldsFrom integer steps [] rest
      | 'n' :: rest => word? "null".toList .null ('n' :: rest)
      | 't' :: rest => word? "true".toList (.bool true) ('t' :: rest)
      | 'f' :: rest => word? "false".toList (.bool false) ('f' :: rest)
      | rest => number? integer rest

/-- The items of an array up to its closing bracket, behind those found, the last one first. -/
def itemsFrom (integer : Int → Option Json) : Nat → List Json → List Char → Read Json
  | 0, _, _ => none
  | steps + 1, found, s =>
      match valueFrom integer steps s with
      | none => none
      | some (item, behind) =>
          match skipLayout behind with
          | ',' :: rest => itemsFrom integer steps (item :: found) rest
          | ']' :: rest => some (.array (item :: found).reverse, rest)
          | _ => none

/-- The fields of an object up to its closing brace, behind those found. -/
def fieldsFrom (integer : Int → Option Json) :
    Nat → List (String × Json) → List Char → Read Json
  | 0, _, _ => none
  | steps + 1, found, s =>
      match skipLayout s with
      | '"' :: inside =>
          match stringFrom inside none [] with
          | none => none
          | some (key, behind) =>
              match skipLayout behind with
              | ':' :: rest =>
                  match valueFrom integer steps rest with
                  | none => none
                  | some (value, behind) =>
                      let fields := setField (String.ofList key) value found
                      match skipLayout behind with
                      | ',' :: rest => fieldsFrom integer steps fields rest
                      | '\x7d' :: rest => some (.object fields, rest)
                      | _ => none
              | _ => none
      | _ => none

end

/-- The value that a text is, if it is one, with a rule for integers. -/
def parseWith? (integer : Int → Option Json) (s : List Char) : Option Json :=
  match valueFrom integer (s.length + 1) s with
  | some (value, behind) => if (skipLayout behind).isEmpty then some value else none
  | none => none

/-- The value that a text is, if it is one. -/
def parse? (s : List Char) : Option Json :=
  parseWith? exactInteger s

end NoticeScan.Json
