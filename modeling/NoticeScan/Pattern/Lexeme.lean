import NoticeScan.Text.Blank

/-!
# The lexemes of a pattern

A pattern is cut into escapes, character classes and other single characters. A class goes from
its opening bracket, behind which a `^` and then a closing bracket may stand as members, to the
next closing bracket that is not escaped.
-/

namespace NoticeScan.Pattern

open NoticeScan.Text

/-- A unit of a pattern. -/
inductive Lexeme where
  /-- A backslash with the character behind it, if there is one. -/
  | escape (c : Option Char)
  /-- A character class, in brackets. `spaced` when a blank stands in it unescaped. -/
  | charClass (text : List Char) (spaced : Bool)
  /-- A class that the pattern ends in before it is closed. -/
  | openClass (text : List Char)
  | other (c : Char)
  deriving Repr, DecidableEq

/-- A lexeme as written. -/
def Lexeme.text : Lexeme → List Char
  | .escape none => ['\\']
  | .escape (some c) => ['\\', c]
  | .charClass text _ => text
  | .openClass text => text
  | .other c => [c]

/-- What follows the opening bracket of a class up to the closing one, and what is behind that;
`none` when there is no closing bracket. The flag tells of unescaped blanks. -/
def classTail : List Char → Option (List Char × Bool × List Char)
  | [] => none
  | ']' :: rest => some ([']'], false, rest)
  | '\\' :: c :: rest =>
      (classTail rest).map fun (body, spaced, behind) => ('\\' :: c :: body, spaced, behind)
  | c :: rest =>
      if c = '\\' then none
      else
        (classTail rest).map fun (body, spaced, behind) =>
          (c :: body, isBlank c || spaced, behind)

/-- The characters right behind the opening bracket of a class that cannot close it. -/
def classHead : List Char → List Char × List Char
  | '^' :: ']' :: rest => (['^', ']'], rest)
  | '^' :: rest => (['^'], rest)
  | ']' :: rest => ([']'], rest)
  | rest => ([], rest)

/-- The class behind an opening bracket as a lexeme, and what is behind it. -/
def classLexeme (rest : List Char) : Lexeme × List Char :=
  match classTail (classHead rest).2 with
  | some (tail, spaced, behind) =>
      (.charClass ('[' :: (classHead rest).1 ++ tail) spaced, behind)
  | none => (.openClass ('[' :: rest), [])

theorem classTail_append {s : List Char} {body behind : List Char} {spaced : Bool}
    (closed : classTail s = some (body, spaced, behind)) : body ++ behind = s := by
  fun_induction classTail s generalizing body behind spaced with
  | case1 => simp at closed
  | case2 rest =>
      simp only [Option.some.injEq, Prod.mk.injEq] at closed
      obtain ⟨rfl, _, rfl⟩ := closed
      rfl
  | case3 c rest step =>
      simp only [Option.map_eq_some_iff, Prod.exists, Prod.mk.injEq] at closed
      obtain ⟨tail, flag, last, found, rfl, _, rfl⟩ := closed
      simp [step found]
  | case4 => simp at closed
  | case5 c rest _ _ _ step =>
      simp only [Option.map_eq_some_iff, Prod.exists, Prod.mk.injEq] at closed
      obtain ⟨tail, flag, last, found, rfl, _, rfl⟩ := closed
      simp [step found]

theorem classHead_append (s : List Char) : (classHead s).1 ++ (classHead s).2 = s := by
  fun_cases classHead s <;> simp_all

theorem classLexeme_append (rest : List Char) :
    (classLexeme rest).1.text ++ (classLexeme rest).2 = '[' :: rest := by
  unfold classLexeme
  split
  · rename_i found
    have whole := classTail_append found
    have start := classHead_append rest
    simp only [Lexeme.text, List.cons_append, List.append_assoc, whole, start]
  · simp [Lexeme.text]

theorem classLexeme_length (rest : List Char) :
    (classLexeme rest).2.length ≤ rest.length := by
  have whole := congrArg List.length (classLexeme_append rest)
  have nonempty : 0 < (classLexeme rest).1.text.length := by
    unfold classLexeme
    split <;> simp [Lexeme.text]
  simp only [List.length_append, List.length_cons] at whole
  omega

/-- The lexemes of a pattern, read in at most the given number of steps. -/
def lexemesIn : Nat → List Char → List Lexeme
  | 0, _ => []
  | _ + 1, [] => []
  | steps + 1, c :: rest =>
      if c = '\\' then
        match rest with
        | [] => [.escape none]
        | d :: behind => .escape (some d) :: lexemesIn steps behind
      else if c = '[' then
        let (lexeme, behind) := classLexeme rest
        lexeme :: lexemesIn steps behind
      else
        .other c :: lexemesIn steps rest

/-- The lexemes of a pattern. -/
def lexemes (pattern : List Char) : List Lexeme :=
  lexemesIn pattern.length pattern

end NoticeScan.Pattern
