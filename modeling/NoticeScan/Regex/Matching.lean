import NoticeScan.Regex.Node

/-!
# Matching

An expression is run against a text at a cursor with a continuation: it tries its ways of
matching in order and hands each cursor behind a way to the continuation, until one is accepted.

The borders of a group are marked one by one, when they are passed. A way that is given up takes
back the marks that were not there before it; a mark that it has only moved goes back to its
place inside a repeat, and stays where it is elsewhere. So what fails tells where it has left the
marks.

A repeat whose last free round has matched nothing takes no further round. Since every other
free round moves the cursor on, no more rounds than the characters left and one can be taken,
which bounds the recursion.
-/

namespace NoticeScan.Regex

open NoticeScan.Text

/-- Where the borders of groups have been passed last: the start and the end of the first group,
then those of the second, and so on. What lies beyond the end of the array has not been
passed. -/
abbrev Marks := Array (Option Nat)

/-- Marks with the one of a border set. -/
def Marks.put (marks : Marks) (border pos : Nat) : Marks :=
  if border < marks.size then
    marks.setIfInBounds border (some pos)
  else
    (marks ++ Array.replicate (border - marks.size) none).push (some pos)

/-- The number of the border at which a group starts; the one at which it ends follows. -/
def startBorder (index : Nat) : Nat :=
  2 * (index - 1)

/-- Where a group has started and ended, if both borders are marked. -/
def Marks.borders? (marks : Marks) (index : Nat) : Option (Nat × Nat) :=
  match marks.getD (startBorder index) none, marks.getD (startBorder index + 1) none with
  | some start, some stop => some (start, stop)
  | _, _ => none

/-- The span that a group has captured. While the group is open again, its end may lie before its
start; then it has captured nothing. -/
def Marks.span? (marks : Marks) (index : Nat) : Option (Nat × Nat) :=
  (marks.borders? index).filter fun span => span.1 ≤ span.2

/-- A position in a text and the marks on the way to it. -/
structure Cursor where
  pos : Nat
  marks : Marks
  deriving Repr, DecidableEq

/-- What comes of running an expression: the cursor that was accepted at last, or the marks as
the last way has left them. -/
inductive Outcome where
  | found (cursor : Cursor)
  | failed (marks : Marks)
  deriving Repr, DecidableEq

/-- What is to be done with a cursor behind a match. -/
abbrev Next := Cursor → Outcome

/-- A cursor with the marks that are left of it after a way from it has been given up. `looping`
says that it stands in a repeat. -/
def Cursor.after (cursor : Cursor) (looping : Bool) (marks : Marks) : Cursor :=
  if looping then cursor else { cursor with marks := marks.shrink cursor.marks.size }

/-- Runs the last way that there is from a cursor. -/
def lastWay (looping : Bool) (cursor : Cursor) (run : Next) : Outcome :=
  if looping then
    match run cursor with
    | .found behind => .found behind
    | .failed _ => .failed cursor.marks
  else
    run cursor

/-- The cursor that an outcome has found. -/
def Outcome.cursor? (outcome : Outcome) : Option Cursor :=
  match outcome with
  | .found cursor => some cursor
  | .failed _ => none

/-- Whether the character at a position may stand in a word; there is none beyond the ends. -/
def wordAt (text : Array Char) (ascii : Bool) (pos : Nat) : Bool :=
  match text[pos]? with
  | some c => Category.word.holds ascii c.toNat
  | none => false

/-- Whether a word starts or ends at a position. -/
def atWordEdge (text : Array Char) (ascii : Bool) (pos : Nat) : Bool :=
  (0 < pos && wordAt text ascii (pos - 1)) != wordAt text ascii pos

/-- Whether an anchor holds at a position. A text without characters has neither word borders
nor places that are none. -/
def Anchor.holds (anchor : Anchor) (text : Array Char) (pos : Nat) : Bool :=
  match anchor with
  | .textStart => pos == 0
  | .lineStart => pos == 0 || text[pos - 1]? == some '\n'
  | .textEnd => pos == text.size
  | .lastLineEnd =>
      pos == text.size || (pos + 1 == text.size && text[pos]? == some '\n')
  | .lineEnd => pos == text.size || text[pos]? == some '\n'
  | .wordEdge ascii => 0 < text.size && atWordEdge text ascii pos
  | .noWordEdge ascii => 0 < text.size && !atWordEdge text ascii pos

/-- Whether the `count` characters at two positions are equal under a folding. -/
def sameText (text : Array Char) (folding : Folding) : Nat → Nat → Nat → Bool
  | 0, _, _ => true
  | count + 1, i, j =>
      match text[i]?, text[j]? with
      | some c, some d =>
          folding.lower c.toNat == folding.lower d.toNat &&
            sameText text folding count (i + 1) (j + 1)
      | _, _ => false

/-- The number of characters from a position on that pass a test, at most `limit`. -/
def runLength (text : Array Char) (test : CharTest) : Nat → Nat → Nat
  | 0, _ => 0
  | limit + 1, pos =>
      if h : pos < text.size then
        if test.passes text[pos] then runLength text test limit (pos + 1) + 1 else 0
      else
        0

/-- Tries the continuation `extra` characters behind `start`, then one fewer, and so on down to
none. -/
def fewerAndFewer (looping : Bool) (next : Next) (start : Nat) : Nat → Next
  | 0, cursor => lastWay looping cursor fun cursor => next { cursor with pos := start }
  | extra + 1, cursor =>
      match next { cursor with pos := start + (extra + 1) } with
      | .found behind => .found behind
      | .failed marks =>
          fewerAndFewer looping next start extra (cursor.after looping marks)

/-- Tries the continuation at `start`, then one character further on, `extra` times. -/
def moreAndMore (looping : Bool) (next : Next) (start : Nat) : Nat → Next
  | 0, cursor => lastWay looping cursor fun cursor => next { cursor with pos := start }
  | extra + 1, cursor =>
      match next { cursor with pos := start } with
      | .found behind => .found behind
      | .failed marks =>
          moreAndMore looping next (start + 1) extra (cursor.after looping marks)

/-- A repeat of a single test. -/
def runOfTest (text : Array Char) (test : CharTest) (looping : Bool) (greed : Greed) (low : Nat)
    (high : Option Nat) (next : Next) (cursor : Cursor) : Outcome :=
  let left := text.size - cursor.pos
  let count := runLength text test (min left (high.getD left)) cursor.pos
  if count < low then
    .failed cursor.marks
  else
    match greed with
    | .greedy => fewerAndFewer looping next (cursor.pos + low) (count - low) cursor
    | .lazy => moreAndMore looping next (cursor.pos + low) (count - low) cursor
    | .possessive => next { cursor with pos := cursor.pos + count }

/-- The number of free rounds that can be taken from a cursor. -/
def freeRounds (text : Array Char) (low : Nat) (high : Option Nat) (cursor : Cursor) : Nat :=
  let left := text.size - cursor.pos + 1
  match high with
  | some high => min (high - low) left
  | none => left

/-- Exactly `count` rounds. -/
def requiredRounds (round : Next → Next) (next : Next) : Nat → Next
  | 0 => next
  | count + 1 => round (requiredRounds round next count)

/-- At most `count` further rounds, as many as possible first. `last` is where the round before
started. -/
def greedyRounds (round : Next → Next) (next : Next) : Nat → Option Nat → Next
  | 0, _, cursor => next cursor
  | count + 1, last, cursor =>
      if last == some cursor.pos then
        next cursor
      else
        match round (greedyRounds round next count (some cursor.pos)) cursor with
        | .found behind => .found behind
        | .failed _ => next cursor

/-- At most `count` further rounds, as few as possible first. `looping` says that the repeat
stands in another one. -/
def lazyRounds (looping : Bool) (round : Next → Next) (next : Next) : Nat → Option Nat → Next
  | 0, _, cursor => lastWay looping cursor next
  | count + 1, last, cursor =>
      match next cursor with
      | .found behind => .found behind
      | .failed marks =>
          let again := cursor.after looping marks
          if last == some cursor.pos then
            .failed again.marks
          else
            round (lazyRounds looping round next count (some cursor.pos)) again

/-- Exactly `count` rounds, each in its first way. -/
def firmRounds (round : Next → Next) : Nat → Next
  | 0, cursor => .found cursor
  | count + 1, cursor =>
      match round .found cursor with
      | .found behind => firmRounds round count behind
      | .failed marks => .failed marks

/-- The cursor behind as many further rounds as possible, at most `count`, each in its first
way. -/
def allRounds (round : Next → Next) : Nat → Option Nat → Cursor → Cursor
  | 0, _, cursor => cursor
  | count + 1, last, cursor =>
      if last == some cursor.pos then
        cursor
      else
        match round .found cursor with
        | .found behind => allRounds round count (some cursor.pos) behind
        | .failed _ => cursor

/-- A repeat of an expression, given how one round of it runs. -/
def rounds (text : Array Char) (round : Next → Next) (looping : Bool) (greed : Greed)
    (low : Nat) (high : Option Nat) (next : Next) (cursor : Cursor) : Outcome :=
  match greed with
  | .greedy =>
      requiredRounds round
        (fun behind => greedyRounds round next (freeRounds text low high behind) none behind)
        low cursor
  | .lazy =>
      requiredRounds round
        (fun behind =>
          lazyRounds looping round next (freeRounds text low high behind) none behind)
        low cursor
  | .possessive =>
      match firmRounds round low cursor with
      | .found behind => next (allRounds round (freeRounds text low high behind) none behind)
      | .failed marks => .failed marks

/-- Runs an expression. `looping` says that it stands in a repeat that gives rounds back. -/
def Node.run (text : Array Char) : Node → Bool → Next → Next
  | .empty, _, next, cursor => next cursor
  | .never, _, _, cursor => .failed cursor.marks
  | .char test, _, next, cursor =>
      if h : cursor.pos < text.size then
        if test.passes text[cursor.pos] then
          next { cursor with pos := cursor.pos + 1 }
        else
          .failed cursor.marks
      else
        .failed cursor.marks
  | .anchor place, _, next, cursor =>
      if place.holds text cursor.pos then next cursor else .failed cursor.marks
  | .seq first second, looping, next, cursor =>
      first.run text looping (fun behind => second.run text looping next behind) cursor
  | .alt first second, looping, next, cursor =>
      match first.run text looping next cursor with
      | .found behind => .found behind
      | .failed marks =>
          lastWay looping (cursor.after looping marks) fun again =>
            second.run text looping next again
  | .group index body, looping, next, cursor =>
      let border := startBorder index
      body.run text looping
        (fun behind => next { behind with marks := behind.marks.put (border + 1) behind.pos })
        { cursor with marks := cursor.marks.put border cursor.pos }
  | .again index folding, _, next, cursor =>
      match cursor.marks.span? index with
      | some (start, stop) =>
          if sameText text folding (stop - start) start cursor.pos then
            next { cursor with pos := cursor.pos + (stop - start) }
          else
            .failed cursor.marks
      | none => .failed cursor.marks
  | .look behind negated body, looping, next, cursor =>
      let width := behind.getD 0
      if width ≤ cursor.pos then
        match body.run text looping .found { cursor with pos := cursor.pos - width }, negated with
        | .found seen, false => next { seen with pos := cursor.pos }
        | .found seen, true => .failed seen.marks
        | .failed marks, false => .failed marks
        | .failed marks, true => next (cursor.after looping marks)
      else if negated then
        next cursor
      else
        .failed cursor.marks
  | .atomic body, looping, next, cursor =>
      match body.run text looping .found cursor with
      | .found behind => next behind
      | .failed marks => .failed marks
  | .repeated greed low high body, looping, next, cursor =>
      match body.test? with
      | some test => runOfTest text test looping greed low high next cursor
      | none =>
          let round := body.run text (looping || greed != .possessive)
          rounds text round looping greed low high next cursor
  | .branch index yes no, looping, next, cursor =>
      match cursor.marks.span? index with
      | some _ => yes.run text looping next cursor
      | none => no.run text looping next cursor

end NoticeScan.Regex
