import NoticeScan.Regex.Flags
import NoticeScan.Text.Blank
import NoticeScan.Text.Capital
import NoticeScan.Text.Numeral

/-!
# Tests on one character

The members of a character class as they are written, what becomes of them when case is ignored,
and the tests that an expression applies to single characters. Members are code points, since
an expression may name one that no text holds.
-/

namespace NoticeScan.Regex

open NoticeScan.Text

/-- The classes with a letter of their own. -/
inductive Category where
  | digit
  | space
  | word
  deriving Repr, DecidableEq

/-- Whether a code point belongs to a category. -/
def Category.holds (category : Category) (ascii : Bool) (x : Nat) : Bool :=
  match category with
  | .digit => if ascii then isPlainDigit x else isDigit x
  | .space =>
      if ascii then x == 0x20 || (0x09 ≤ x && x ≤ 0x0D) else isBlankPoint x
  | .word => if ascii then x < 128 && isWordPoint x else isWordPoint x

/-- A member of a character class as written. -/
inductive Member where
  | point (x : Nat)
  | range (low high : Nat)
  | category (kind : Category) (negated : Bool)
  deriving Repr, DecidableEq

/-- A code point with the letter `A` to `Z` made small, or the full lower-case form. -/
def Folding.lower (folding : Folding) (x : Nat) : Nat :=
  match folding with
  | .exact => x
  | .ascii => if 0x41 ≤ x && x ≤ 0x5A then x + 0x20 else x
  | .full => Text.lower x

/-- The code points that count as equal to `x`. -/
def Folding.kin (folding : Folding) (x : Nat) : List Nat :=
  match folding with
  | .exact => [x]
  | .ascii =>
      if 0x41 ≤ x && x ≤ 0x5A then [x, x + 0x20]
      else if 0x61 ≤ x && x ≤ 0x7A then [x, x - 0x20]
      else [x]
  | .full => Text.kin x

/-- Whether case makes a difference for a code point. -/
def Folding.touches (folding : Folding) (x : Nat) : Bool :=
  match folding with
  | .exact => false
  | .ascii => (0x41 ≤ x && x ≤ 0x5A) || (0x61 ≤ x && x ≤ 0x7A)
  | .full => isCased x

/-- The last code point of the basic plane. -/
def basicPlaneEnd : Nat := 0xFFFF

/-- A condition on one code point, with case already taken into account. -/
inductive Condition where
  | point (x : Nat)
  | range (low high : Nat)
  /-- Some kin of the code point lies in the range. -/
  | kinRange (folding : Folding) (low high : Nat)
  /-- The lower-case form is exactly this code point. -/
  | lowered (folding : Folding) (x : Nat)
  | category (kind : Category) (ascii negated : Bool)
  deriving Repr, DecidableEq

/-- Whether a code point fulfils a condition. A range that goes on beyond the basic plane is
also entered by the lower-case form and by the upper-case form of that. -/
def Condition.holds (condition : Condition) (x : Nat) : Bool :=
  match condition with
  | .point y => x == y
  | .range low high => low ≤ x && x ≤ high
  | .kinRange folding low high =>
      ((folding.kin x).any fun y => low ≤ y && y ≤ min high basicPlaneEnd) ||
        (basicPlaneEnd < high &&
          let y := folding.lower x
          let z := capital y
          (low ≤ y && y ≤ high) || (low ≤ z && z ≤ high))
  | .lowered folding y => folding.lower x == y
  | .category kind ascii negated => kind.holds ascii x != negated

/-- The conditions that a member of a class stands for. When case is ignored, a point of the
basic plane brings its kin along, and one beyond it is compared with lower-case forms only. -/
def Member.conditions (flags : Flags) (member : Member) : List Condition :=
  match member with
  | .category kind negated => [.category kind flags.ascii negated]
  | .point x =>
      match flags.folding with
      | .exact => [.point x]
      | folding =>
          if x ≤ basicPlaneEnd then (folding.kin x).map .point else [.lowered folding x]
  | .range low high =>
      match flags.folding with
      | .exact => [.range low high]
      | folding => [.kinRange folding low high]

/-- A test on one character. -/
inductive CharTest where
  /-- Every character passes. -/
  | any
  /-- Every character but the line feed passes. -/
  | notNewline
  /-- The listed code points pass, or all others do. -/
  | listed (negated : Bool) (points : List Nat)
  /-- What fulfils one of the conditions passes, or all else does. -/
  | fulfils (negated : Bool) (conditions : List Condition)
  deriving Repr, DecidableEq

/-- Whether a character passes a test. -/
def CharTest.passes (test : CharTest) (c : Char) : Bool :=
  match test with
  | .any => true
  | .notNewline => c != '\n'
  | .listed negated points => points.contains c.toNat != negated
  | .fulfils negated conditions =>
      (conditions.any fun condition => condition.holds c.toNat) != negated

/-- The test for one written character. -/
def CharTest.ofPoint (flags : Flags) (negated : Bool) (x : Nat) : CharTest :=
  .listed negated (flags.folding.kin x)

/-- The test for a character out of some members, or out of none of them. -/
def CharTest.ofMembers (flags : Flags) (negated : Bool) (members : List Member) : CharTest :=
  .fulfils negated (members.flatMap (Member.conditions flags))

/-- The test for a dot. -/
def CharTest.dot (flags : Flags) : CharTest :=
  if flags.dotAll then .any else .notNewline

end NoticeScan.Regex
