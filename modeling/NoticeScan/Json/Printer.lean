import NoticeScan.Json.Value

/-!
# Writing JSON

The compact form: no blanks, fields in order, and only those characters of a string escaped that
have to be.
-/

namespace NoticeScan.Json

/-- A digit of base sixteen, in small letters. -/
def hexDigit (n : Nat) : Char :=
  Nat.digitChar (n % 16)

/-- A character inside a string. -/
def escaped (c : Char) : List Char :=
  if c == '"' then ['\\', '"']
  else if c == '\\' then ['\\', '\\']
  else if c == '\x08' then ['\\', 'b']
  else if c == '\x0c' then ['\\', 'f']
  else if c == '\n' then ['\\', 'n']
  else if c == '\r' then ['\\', 'r']
  else if c == '\t' then ['\\', 't']
  else if c.toNat < 0x20 then
    ['\\', 'u', '0', '0', hexDigit (c.toNat / 16), hexDigit c.toNat]
  else [c]

/-- A string between quotes. -/
def quote (s : List Char) : List Char :=
  '"' :: s.flatMap escaped ++ ['"']

/-- An integer in decimal digits. -/
def digits (n : Int) : List Char :=
  (toString n).toList

mutual

/-- The compact form of a value, in front of a text. -/
def printBefore : Json → List Char → List Char
  | .null, rest => "null".toList ++ rest
  | .bool true, rest => "true".toList ++ rest
  | .bool false, rest => "false".toList ++ rest
  | .int n, rest => digits n ++ rest
  | .decimal mantissa exponent, rest => digits mantissa ++ 'e' :: digits exponent ++ rest
  | .string s, rest => quote s.toList ++ rest
  | .array [], rest => '[' :: ']' :: rest
  | .array (item :: items), rest => '[' :: item.printBefore (printItems items rest)
  | .object [], rest => '\x7b' :: '\x7d' :: rest
  | .object ((key, value) :: fields), rest =>
      '\x7b' :: (quote key.toList ++ ':' :: value.printBefore (printFields fields rest))

/-- The items of an array behind its first one, and the closing bracket. -/
def printItems : List Json → List Char → List Char
  | [], rest => ']' :: rest
  | item :: items, rest => ',' :: item.printBefore (printItems items rest)

/-- The fields of an object behind its first one, and the closing brace. -/
def printFields : List (String × Json) → List Char → List Char
  | [], rest => '\x7d' :: rest
  | (key, value) :: fields, rest =>
      ',' :: (quote key.toList ++ ':' :: value.printBefore (printFields fields rest))

end

/-- The compact form of a value. -/
def print (value : Json) : List Char :=
  value.printBefore []

end NoticeScan.Json
