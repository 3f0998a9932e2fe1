import NoticeScan.Regex.CharTest

/-!
# Expressions

The tree of a regular expression, with flags already resolved: every test and every anchor says
by itself how it compares.
-/

namespace NoticeScan.Regex

/-- A condition on a position in a text. -/
inductive Anchor where
  | textStart
  | lineStart
  | textEnd
  /-- The end of the text, or the place before a line feed that ends it. -/
  | lastLineEnd
  | lineEnd
  /-- The border of a word. -/
  | wordEdge (ascii : Bool)
  /-- Anywhere but at the border of a word. -/
  | noWordEdge (ascii : Bool)
  deriving Repr, DecidableEq

/-- Which numbers of rounds are tried first, and whether others are tried at all. -/
inductive Greed where
  /-- As many rounds as possible, then fewer. -/
  | greedy
  /-- As few rounds as possible, then more. -/
  | lazy
  /-- As many rounds as possible and no fewer; no round is taken back. -/
  | possessive
  deriving Repr, DecidableEq

/-- A regular expression. -/
inductive Node where
  | empty
  | never
  | char (test : CharTest)
  | anchor (place : Anchor)
  | seq (first second : Node)
  | alt (first second : Node)
  | group (index : Nat) (body : Node)
  /-- The text that a group has captured, once more. -/
  | again (index : Nat) (folding : Folding)
  /-- The body matches here, or right before when `behind` gives its width; or it does not. -/
  | look (behind : Option Nat) (negated : Bool) (body : Node)
  /-- The first way in which the body matches, and no other. -/
  | atomic (body : Node)
  /-- At least `low` rounds of the body, at most `high`. -/
  | repeated (greed : Greed) (low : Nat) (high : Option Nat) (body : Node)
  /-- One of two bodies, as a group has captured something or not. -/
  | branch (index : Nat) (yes no : Node)
  deriving Repr, DecidableEq

/-- The test of an expression that is just one. -/
def Node.test? : Node → Option CharTest
  | .char test => some test
  | _ => none

/-- Expressions one after the other. -/
def Node.sequence : List Node → Node
  | [] => .empty
  | [node] => node
  | node :: rest => .seq node (sequence rest)

/-- Expressions of which an earlier one is tried before a later one. -/
def Node.choice : List Node → Node
  | [] => .never
  | [node] => node
  | node :: rest => .alt node (choice rest)

end NoticeScan.Regex
