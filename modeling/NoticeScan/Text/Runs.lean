/-!
# Ascending arrays and the runs they mark

A set of code points that falls into few runs is kept as the ascending array of the points at
which membership changes: the first mark starts a run, the second ends it, and so on. A point is
in the set when an odd number of marks is at or before it.
-/

namespace NoticeScan.Text

/-- Halves the stretch from `low` to `high`, all entries before which are at most `x` and all
entries from which are greater, until nothing is left of it. -/
def rankIn (marks : Array Nat) (x : Nat) : Nat → Nat → Nat → Nat
  | 0, low, _ => low
  | steps + 1, low, high =>
      if low < high then
        let middle := (low + high) / 2
        if marks.getD middle 0 ≤ x then
          rankIn marks x steps (middle + 1) high
        else
          rankIn marks x steps low middle
      else
        low

/-- The number of entries of an ascending array that are at most `x`. -/
def rank (marks : Array Nat) (x : Nat) : Nat :=
  rankIn marks x marks.size 0 marks.size

/-- Whether `x` lies in one of the runs that the marks start and end. -/
def switched (marks : Array Nat) (x : Nat) : Bool :=
  rank marks x % 2 == 1

end NoticeScan.Text
