import NoticeScan.Text.Printable

/-!
# Quoted texts

A text as it is shown in a message: between single quotes, or between double quotes when it
holds a single one and no double one. The closing quote, the backslash, the characters with a
letter of their own and everything that cannot be shown are escaped.
-/

namespace NoticeScan.Text

/-- The `width` last digits of a number in base sixteen, in small letters. -/
def hexDigits (width x : Nat) : List Char :=
  ((List.range width).map fun place => Nat.digitChar (x / Nat.pow 16 place % 16)).reverse

/-- A character inside quotes of the kind `quote`. -/
def escapeIn (quote : Char) (c : Char) : List Char :=
  if c == quote || c == '\\' then ['\\', c]
  else if c == '\n' then ['\\', 'n']
  else if c == '\r' then ['\\', 'r']
  else if c == '\t' then ['\\', 't']
  else if isPrintable c.toNat then [c]
  else if c.toNat < 0x100 then '\\' :: 'x' :: hexDigits 2 c.toNat
  else if c.toNat < 0x10000 then '\\' :: 'u' :: hexDigits 4 c.toNat
  else '\\' :: 'U' :: hexDigits 8 c.toNat

/-- The quote that a text is put between. -/
def quoteFor (s : List Char) : Char :=
  if s.contains '\'' && !s.contains '"' then '"' else '\''

/-- A text between quotes. -/
def quoted (s : List Char) : List Char :=
  let quote := quoteFor s
  quote :: s.flatMap (escapeIn quote) ++ [quote]

end NoticeScan.Text
