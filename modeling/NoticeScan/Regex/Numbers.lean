import NoticeScan.Regex.Escape
import NoticeScan.Text.Blank

/-!
# Numbers in an expression

The bounds of a repeat are decimal digits. The number of a group in a choice is written more
freely: with digits of any script, blanks around it, a sign and low lines between its digits.
-/

namespace NoticeScan.Regex

open NoticeScan.Text

/-- The number of rounds that stands for any number of them. -/
def endless : Nat := 4294967295

/-- The most digits that a number may have, zeros at its start included. -/
def digitLimit : Nat := 4300

/-- The bound of a repeat that decimal digits spell. -/
def boundOf (digits : List Char) : Except Error Nat :=
  if digitLimit < digits.length then
    .error (.tooManyDigits digitLimit digits.length)
  else if endless ≤ number 10 digits then
    .error .repetitionTooLarge
  else
    .ok (number 10 digits)

/-- The value of decimal digits of any script; a single low line may stand between two. -/
def digitsValue? : Nat → List Char → Option Nat
  | value, [] => some value
  | value, '_' :: c :: rest =>
      (digitValue? c.toNat).bind fun digit => digitsValue? (value * 10 + digit) rest
  | value, c :: rest =>
      (digitValue? c.toNat).bind fun digit => digitsValue? (value * 10 + digit) rest

/-- The number of a group without blanks and sign. -/
def unsignedNumber? (written : List Char) : Option Nat :=
  match written with
  | [] => none
  | '_' :: _ => none
  | _ =>
      if digitLimit < written.countP (· != '_') then none else digitsValue? 0 written

/-- Whether a character may stand around the number of a group. Of the blanks below 128 the
information separators may not. -/
def surroundsNumber (c : Char) : Bool :=
  isBlank c && !('\x1c' ≤ c && c ≤ '\x1f')

/-- The number of a group as it may be written in a choice. Only zero may be negative. -/
def groupNumber? (written : List Char) : Option Nat :=
  match trimOf surroundsNumber written with
  | '+' :: rest => unsignedNumber? rest
  | '-' :: rest => (unsignedNumber? rest).filter (· == 0)
  | rest => unsignedNumber? rest

/-- The first number that is too great for a group. -/
def groupLimit : Nat := 1073741823

end NoticeScan.Regex
