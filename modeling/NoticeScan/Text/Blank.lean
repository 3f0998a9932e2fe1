/-!
# Blank characters

White space in the wide sense: the separators of every script, the control characters that move
the print position and the four information separators.
-/

namespace NoticeScan.Text

/-- Whether a code point is white space. -/
def isBlankPoint (x : Nat) : Bool :=
  if x < 128 then
    x == 0x20 || (0x09 ≤ x && x ≤ 0x0D) || (0x1C ≤ x && x ≤ 0x1F)
  else
    x == 0x85 || x == 0xA0 || x == 0x1680 || (0x2000 ≤ x && x ≤ 0x200A) ||
      x == 0x2028 || x == 0x2029 || x == 0x202F || x == 0x205F || x == 0x3000

/-- Whether a character is white space. -/
def isBlank (c : Char) : Bool :=
  isBlankPoint c.toNat

/-- A text without the characters of a class at its two ends. -/
def trimOf (accepts : Char → Bool) (s : List Char) : List Char :=
  ((s.dropWhile accepts).reverse.dropWhile accepts).reverse

theorem head?_trimOf
    {accepts : Char → Bool}
    {s : List Char}
    {c : Char}
    (first : (trimOf accepts s).head? = some c) :
    accepts c = false := by
  unfold trimOf at first
  have dropped := List.head?_dropWhile_not accepts s
  generalize s.dropWhile accepts = kept at first dropped
  obtain ⟨cut, split⟩ := List.dropWhile_suffix accepts (l := kept.reverse)
  have front : kept = (kept.reverse.dropWhile accepts).reverse ++ cut.reverse := by
    rw [← List.reverse_append, split, List.reverse_reverse]
  rw [front, List.head?_append, first] at dropped
  exact dropped

theorem getLast?_trimOf
    {accepts : Char → Bool}
    {s : List Char}
    {c : Char}
    (last : (trimOf accepts s).getLast? = some c) :
    accepts c = false := by
  unfold trimOf at last
  rw [List.getLast?_reverse] at last
  have dropped := List.head?_dropWhile_not accepts (s.dropWhile accepts).reverse
  rw [last] at dropped
  exact dropped

/-- A text without the white space at its two ends. -/
def trim (s : List Char) : List Char :=
  trimOf isBlank s

end NoticeScan.Text
