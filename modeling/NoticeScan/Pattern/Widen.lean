import NoticeScan.Pattern.Lexeme
import NoticeScan.Pattern.Vocabulary

/-!
# Widening a pattern

A pattern is written as if single spaces separated its words. Widening turns it into a regular
expression that allows for more: a run of blanks becomes a bounded run of any blanks, and a
`.*` or `.+` in the middle becomes a bounded number of any words. Character classes are left as
they are by the second of these.
-/

namespace NoticeScan.Pattern

open NoticeScan.Text

/-! ## Edges -/

/-- Whether a pattern starts with `.*` or `.+`. -/
def looseStart : List Char → Bool
  | '.' :: c :: _ => c == '*' || c == '+'
  | _ => false

/-- Whether a reversed pattern ends with `.*` or `.+`, with no backslash before the dot. -/
def looseEndReversed : List Char → Bool
  | c :: '.' :: before => (c == '*' || c == '+') && before.head? != some '\\'
  | _ => false

/-- Whether a pattern ends with `.*` or `.+`, with no backslash before the dot. -/
def looseEnd (pattern : List Char) : Bool :=
  looseEndReversed pattern.reverse

/-- A pattern without its loose edges. -/
def core (pattern : List Char) : List Char :=
  let body := if looseStart pattern then pattern.drop 2 else pattern
  if looseEnd pattern then body.take (body.length - 2) else body

/-! ## Classes and the text between them -/

/-- Whether a lexeme is a character class. -/
def Lexeme.isClass : Lexeme → Bool
  | .charClass _ _ => true
  | .openClass _ => true
  | _ => false

/-- A stretch of a pattern: a character class, or what stands before, between or behind
classes. -/
structure Segment where
  text : List Char
  isClass : Bool
  deriving Repr, DecidableEq

/-- The stretches that lexemes make up. Stretches of text, which may be empty, and classes take
turns. -/
def segmentsOf : List Lexeme → List Segment
  | [] => [⟨[], false⟩]
  | lexeme :: rest =>
      if lexeme.isClass then
        ⟨[], false⟩ :: ⟨lexeme.text, true⟩ :: segmentsOf rest
      else
        match segmentsOf rest with
        | segment :: more => ⟨lexeme.text ++ segment.text, segment.isClass⟩ :: more
        | [] => [⟨lexeme.text, false⟩]

/-- The stretches of a pattern. -/
def segments (pattern : List Char) : List Segment :=
  segmentsOf (lexemes pattern)

/-- Replaces `.*` and `.+` by bounded runs of words, together with the blanks on both sides. A
dot behind a backslash stands for itself. `held` are the blanks just passed, the last one first;
`skipping` tells that blanks belong to a replaced dot; `before` is the character before. -/
def widenDots (limits : Limits) :
    (text : List Char) → (skipping : Bool) → (held : List Char) → (before : Option Char) →
      List Char
  | [], _, held, _ => held.reverse
  | '.' :: c :: rest, _, held, before =>
      if (c == '*' || c == '+') && (!held.isEmpty || before != some '\\') then
        wildcard (if c == '+' then 1 else 0) limits ++ widenDots limits rest true [] (some c)
      else
        held.reverse ++ '.' :: widenDots limits (c :: rest) false [] (some '.')
  | c :: rest, skipping, held, _ =>
      if isBlank c then
        if skipping then widenDots limits rest true [] (some c)
        else widenDots limits rest false (c :: held) (some c)
      else
        held.reverse ++ c :: widenDots limits rest false [] (some c)

/-- Replaces the open words of a pattern outside its classes. -/
def widenWords (limits : Limits) (pattern : List Char) : List Char :=
  (segments pattern).flatMap fun segment =>
    if segment.isClass then segment.text else widenDots limits segment.text false [] none

/-! ## Blanks -/

/-- Replaces every run of blanks by a bounded run of any blanks, which may be empty if a question
mark follows. `inRun` tells that the character before was a blank. -/
def widenBlanks (limits : Limits) : (inRun : Bool) → List Char → List Char
  | false, [] => []
  | true, [] => space 1 limits
  | inRun, c :: rest =>
      if isBlank c then
        widenBlanks limits true rest
      else if !inRun then
        c :: widenBlanks limits false rest
      else if c == '?' then
        space 0 limits ++ widenBlanks limits false rest
      else
        space 1 limits ++ c :: widenBlanks limits false rest

/-- The expression for a pattern without its loose edges. -/
def widen (limits : Limits) (pattern : List Char) : Expr :=
  widenBlanks limits false (widenWords limits (core pattern))

/-- The expression that a whole text has to match: any text stands at the loose edges. -/
def wholeExpr (pattern : List Char) (body : Expr) : Expr :=
  let anything := "(?:.*)".toList
  (if looseStart pattern then anything else []) ++ group body ++
    (if looseEnd pattern then anything else [])

end NoticeScan.Pattern
