import NoticeScan.Regex.Matching
import NoticeScan.Regex.Parser

/-!
# Regular expressions and searching with them

An expression is compiled from its text once. It then tells whether it matches a whole text, or
where in a text it matches: at the leftmost place, and there in the first of its ways. A search
passes over the places where the first character cannot open a match; classes are read under
the flags of the whole expression for that, even where a group has flags of its own.
-/

namespace NoticeScan

open NoticeScan.Regex

/-- A compiled regular expression. -/
structure Regex where
  node : Node
  /-- The test that the first character of a match has to pass when it is searched for. -/
  opening : Option CharTest
  /-- The number of capturing groups. -/
  groupCount : Nat
  /-- The names of groups, in the order in which they are defined. -/
  names : List (List Char × Nat)
  deriving Repr, DecidableEq

/-- A match: its span, and the borders of the groups in it. -/
structure Regex.Found where
  start : Nat
  stop : Nat
  marks : Marks
  deriving Repr, DecidableEq

namespace Regex

/-- The test on the first character of a sequence that cannot match the empty text. It is read
under the flags of the whole expression. -/
def openingTest? (flags : Flags) (items : List Item) : Option CharTest :=
  if (Part.ofItems items).width.low = 0 then
    none
  else
    (openingOf items).bind fun opening => opening.test? flags

/-- Compiles an expression. -/
def compile (flags : Flags) (source : List Char) : Except Error Regex := do
  let input ← Input.checked ⟨source, 0⟩
  let level : Level := { opener := .whole, start := 0, flags := flags }
  let reading ← Reading.run (source.length + 1) { input := input, level := level }
  let items ← reading.finish
  .ok
    { node := (Part.ofItems items).node
      opening := openingTest? reading.flags items
      groupCount := reading.groups.widths.size - 1
      names := reading.groups.names }

/-- The expression that matches nothing. -/
def nothing : Regex where
  node := .never
  opening := none
  groupCount := 0
  names := []

/-- Compiles an expression that is known to be well formed. -/
def ofText (flags : Flags) (source : List Char) : Regex :=
  (compile flags source).toOption.getD nothing

/-- The match that a cursor behind it tells of. -/
def foundFrom (start : Nat) (behind : Cursor) : Found where
  start := start
  stop := behind.pos
  marks := behind.marks

/-- The first match that starts at a position and ends where `accepts` allows it. -/
def matchFrom (regex : Regex) (text : Array Char) (accepts : Nat → Bool) (pos : Nat) :
    Option Found :=
  let accept : Next := fun behind =>
    if accepts behind.pos then .found behind else .failed behind.marks
  (regex.node.run text false accept ⟨pos, #[]⟩).cursor?.map (foundFrom pos)

/-- Whether a search looks for a match at a position. -/
def mayOpen (regex : Regex) (text : Array Char) (pos : Nat) : Bool :=
  match regex.opening with
  | none => true
  | some test => text[pos]?.any test.passes

/-- The first match that a search finds at a position; `moving` asks for one that is not
empty. -/
def matchAt (regex : Regex) (text : Array Char) (moving : Bool) (pos : Nat) : Option Found :=
  if regex.mayOpen text pos then
    regex.matchFrom text (fun stop => !moving || stop != pos) pos
  else
    none

/-- The first match that starts at a position or at one of the `more` positions after it. Only a
match at the first position is asked not to be empty. -/
def searchFrom (regex : Regex) (text : Array Char) : Nat → Bool → Nat → Option Found
  | 0, moving, pos => regex.matchAt text moving pos
  | more + 1, moving, pos =>
      match regex.matchAt text moving pos with
      | some found => some found
      | none => searchFrom regex text more false (pos + 1)

/-- Where the search for the next match goes on: from a position, and not with an empty match
there if the match before was empty. -/
structure Search where
  pos : Nat := 0
  moving : Bool := false
  deriving Repr, DecidableEq

/-- The next match of a search, and the search behind it. -/
def next? (regex : Regex) (text : Array Char) (search : Search) : Option (Found × Search) :=
  (regex.searchFrom text (text.size - search.pos) search.moving search.pos).map fun found =>
    (found, { pos := found.stop, moving := found.stop == found.start })

/-- A bound on the number of matches in a text: between two positions there are at most one
empty and one other match. -/
def matchBound (text : Array Char) : Nat :=
  2 * text.size + 2

/-- The matches of a search, at most `bound` of them. -/
def findFrom (regex : Regex) (text : Array Char) : Nat → Search → List Found
  | 0, _ => []
  | bound + 1, search =>
      match regex.next? text search with
      | some (found, after) => found :: findFrom regex text bound after
      | none => []

/-- All matches in a text, from left to right, none overlapping another. -/
def findAll (regex : Regex) (text : Array Char) : List Found :=
  regex.findFrom text (matchBound text) {}

/-- The first match in a text. -/
def find? (regex : Regex) (text : Array Char) : Option Found :=
  regex.searchFrom text text.size false 0

/-- Whether the expression matches a text from its start. -/
def matchesStart (regex : Regex) (text : Array Char) : Bool :=
  (regex.matchFrom text (fun _ => true) 0).isSome

/-- Whether the expression matches a whole text. -/
def matchesWhole (regex : Regex) (text : Array Char) : Bool :=
  (regex.matchFrom text (fun stop => stop == text.size) 0).isSome

/-- The span of a group in a match. -/
def Found.group? (found : Found) (index : Nat) : Option (Nat × Nat) :=
  found.marks.borders? index

end Regex

end NoticeScan
