import NoticeScan.Pattern.Lexeme

/-!
# Problems of a pattern

What keeps a pattern from being used, found without compiling it: a pattern has to say something,
must not capture, and must not hide blanks in a character class, where they would not be widened.
-/

namespace NoticeScan.Pattern

open NoticeScan.Text

/-- What is wrong with a pattern. -/
inductive Problem where
  | empty
  | matchesEverything
  | openClass
  | spaceInClass
  | capture
  deriving Repr, DecidableEq

/-- The wording of a problem. -/
def Problem.message (problem : Problem) (pattern : String) : String :=
  match problem with
  | .empty => "Non-empty pattern required."
  | .matchesEverything => "Pattern /" ++ pattern ++ "/ matches everything."
  | .openClass => "Unterminated character class in /" ++ pattern ++ "/."
  | .spaceInClass =>
      "Character class with space in /" ++ pattern ++
        "/. Use (?: |...) instead of space in [...]."
  | .capture =>
      "Capturing group found in /" ++ pattern ++
        "/. Use non-capturing (?:...) instead of (...)."

/-- A problem and its place in the pattern. -/
structure Finding where
  problem : Problem
  position : Nat
  deriving Repr, DecidableEq

/-- Whether a text consists of blanks and of dots followed by a star or a plus. -/
def isWildcards : List Char → Bool
  | [] => true
  | '.' :: c :: rest => (c == '*' || c == '+') && isWildcards rest
  | c :: rest => isBlank c && isWildcards rest

/-- Whether a group that captures starts behind an opening parenthesis. -/
def capturesAhead : List Lexeme → Bool
  | .other '?' :: .other 'P' :: .other '<' :: _ => true
  | .other '?' :: _ => false
  | _ => true

/-- The problem of a single lexeme, given those behind it. -/
def problemOf (lexeme : Lexeme) (behind : List Lexeme) : Option Problem :=
  match lexeme with
  | .openClass _ => some .openClass
  | .charClass _ true => some .spaceInClass
  | .other '(' => if capturesAhead behind then some .capture else none
  | _ => none

/-- The problems of lexemes, the first of which stands at a position. -/
def lexemeFindings : Nat → List Lexeme → List Finding
  | _, [] => []
  | position, lexeme :: behind =>
      let more := lexemeFindings (position + lexeme.text.length) behind
      match problemOf lexeme behind with
      | some problem => ⟨problem, position⟩ :: more
      | none => more

/-- All problems of a pattern, in the order of their places. -/
def findings (pattern : List Char) : List Finding :=
  if pattern.all isBlank then
    [⟨.empty, 0⟩]
  else if isWildcards pattern then
    [⟨.matchesEverything, 0⟩]
  else
    lexemeFindings 0 (lexemes pattern)

end NoticeScan.Pattern
