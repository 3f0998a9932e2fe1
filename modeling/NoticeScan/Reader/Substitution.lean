import NoticeScan.Text.Utf8

/-!
# Stand-ins for stray bytes

A byte that belongs to no well-formed sequence is shown as one character. Bytes from `C0` on are
taken for Latin letters, and a few others for the punctuation marks that old notices hold.
-/

namespace NoticeScan.Reader

open NoticeScan.Text

/-- The character that a stray byte is shown as. -/
def substitute (b : UInt8) : Char :=
  let n := b.toNat
  if 0xC0 ≤ n then Char.ofNat n
  else if n == 0xA0 || n == 0xA7 || n == 0xAD || n == 0xB6 then ' '
  else if n == 0x87 || n == 0xB7 then '*'
  else if n == 0x85 || n == 0x99 then '™'
  else if n == 0xA9 then '©'
  else if n == 0xAE then '®'
  else if n == 0x94 then 'ö'
  else '?'

/-- The bytes that can be stray, with their stand-ins. -/
def substitutions : List (UInt8 × Char) :=
  (List.range 128).map fun k => let b := (k + 128).toUInt8; (b, substitute b)

/-- The character that a glyph is shown as. -/
def shown : Glyph → Char
  | .char c => c
  | .stray b => substitute b

/-- Whether a glyph is a stray byte. -/
def isStray : Glyph → Bool
  | .char _ => false
  | .stray _ => true

end NoticeScan.Reader
