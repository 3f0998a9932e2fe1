/-!
# The distance between two texts

The least number of characters that have to be inserted, deleted or replaced to turn one text
into another. A row of the table holds the distances from one start of the first text to all
starts of the second; each row is computed from the one before.
-/

namespace NoticeScan.Catalogue

/-- The entries of the next row behind its first one. `diagonal` is the entry above and to the
left, `left` the entry just found; `row` is the rest of the row above. -/
def nextEntries (c : Char) : (diagonal left : Nat) → (row : List Nat) → List Char → List Nat
  | diagonal, left, above :: row, d :: rest =>
      let here := min (min (above + 1) (left + 1)) (if c = d then diagonal else diagonal + 1)
      here :: nextEntries c above here row rest
  | _, _, _, _ => []

/-- The row below a row, for one more character of the first text. -/
def nextRow (c : Char) (row : List Nat) (other : List Char) : List Nat :=
  match row with
  | [] => []
  | first :: rest => (first + 1) :: nextEntries c first (first + 1) rest other

/-- The row for the empty start of the first text. -/
def firstRow (other : List Char) : List Nat :=
  List.range (other.length + 1)

/-- The distance between two texts. -/
def editDistance (a b : List Char) : Nat :=
  (a.foldl (fun row c => nextRow c row b) (firstRow b)).getLastD 0

end NoticeScan.Catalogue
