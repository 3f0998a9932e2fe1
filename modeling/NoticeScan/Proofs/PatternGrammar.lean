import NoticeScan.Proofs.Lexemes

/-!
# The grammar of patterns

A pattern is read as a sequence of escapes, character classes and other single characters, and can
be read in one way only. The problems of a pattern and its division into classes and the text
between them both follow this reading: a problem is found exactly where the reading has one, and
the stretches that are taken for classes are the classes of the reading, at the same places.
-/

namespace NoticeScan.Pattern

open NoticeScan.Text

/-! ## Readings -/

/-- A pattern is read as lexemes. A backslash at the end is an escape of nothing, and a bracket
that opens no class leaves one open up to the end. -/
inductive ReadAs : List Char → List Lexeme → Prop
  | nil : ReadAs [] []
  | escape (c : Char) {rest : List Char} {units : List Lexeme} :
      ReadAs rest units → ReadAs ('\\' :: c :: rest) (.escape (some c) :: units)
  | loneEscape : ReadAs ['\\'] [.escape none]
  | charClass (charClass : CharClass) {rest : List Char} {units : List Lexeme} :
      ReadAs rest units →
      ReadAs (charClass.text ++ rest) (.charClass charClass.text charClass.isSpaced :: units)
  | openClass {inner : List Char} :
      (∀ charClass : CharClass, ¬ charClass.text <+: '[' :: inner) →
      ReadAs ('[' :: inner) [.openClass ('[' :: inner)]
  | other {c : Char} {rest : List Char} {units : List Lexeme} :
      c ≠ '\\' → c ≠ '[' → ReadAs rest units → ReadAs (c :: rest) (.other c :: units)

/-! ### Every pattern is read in one way -/

theorem lexemes_openClass
    {inner : List Char}
    (left : ∀ charClass : CharClass, ¬ charClass.text <+: '[' :: inner) :
    lexemes ('[' :: inner) = [.openClass ('[' :: inner)] := by
  cases closed : classTail (classHead inner).2 with
  | none => rw [lexemes_bracket, classLexeme, closed, lexemes_nil]
  | some found =>
      obtain ⟨tail, spaced, behind⟩ := found
      obtain ⟨charClass, written, -⟩ := exists_charClass closed
      refine absurd ⟨behind, ?_⟩ (left charClass)
      rw [← written, List.cons_append, List.cons_append, List.append_assoc,
        classTail_append closed, classHead_append]

theorem ReadAs.lexemes_eq
    {text : List Char}
    {units : List Lexeme}
    (readAs : ReadAs text units) :
    lexemes text = units := by
  induction readAs with
  | nil => rfl
  | escape c _ inductionHypothesis => rw [lexemes_escape, inductionHypothesis]
  | loneEscape => rfl
  | charClass charClass _ inductionHypothesis =>
      rw [charClass.lexemes_text, inductionHypothesis]
  | openClass left => exact lexemes_openClass left
  | other noEscape noBracket _ inductionHypothesis =>
      rw [lexemes_simple (isSimple_iff.mpr ⟨noEscape, noBracket⟩), inductionHypothesis]

theorem IsClass.exists_charClass
    {text : List Char}
    {spaced : Bool}
    (isClass : IsClass text spaced) :
    ∃ charClass : CharClass, text = charClass.text ∧ spaced = charClass.isSpaced := by
  obtain ⟨inner, rfl⟩ := isClass.starts
  have read := isClass.lexemes_eq
  rw [lexemes_bracket, classLexeme] at read
  cases closed : classTail (classHead inner).2 with
  | none => rw [closed] at read; cases read
  | some found =>
      obtain ⟨tail, flag, behind⟩ := found
      rw [closed] at read
      obtain ⟨sameText, sameFlag⟩ := Lexeme.charClass.inj (List.cons.inj read).1
      rw [← sameText, ← sameFlag]
      exact Pattern.exists_charClass closed

theorem Written.readAs
    {units : List Lexeme}
    (written : Written units) :
    ReadAs (units.flatMap Lexeme.text) units := by
  induction written with
  | nil => exact .nil
  | lone => exact .loneEscape
  | @openClass inner opened =>
      rw [List.flatMap_singleton]
      refine .openClass fun charClass ahead => ?_
      obtain ⟨behind, whole⟩ := ahead
      rw [← whole, charClass.lexemes_text] at opened
      cases opened
  | escape c _ inductionHypothesis => exact .escape c inductionHypothesis
  | charClass isClass _ inductionHypothesis =>
      obtain ⟨charClass, rfl, rfl⟩ := isClass.exists_charClass
      exact .charClass charClass inductionHypothesis
  | other simple _ inductionHypothesis =>
      obtain ⟨noEscape, noBracket⟩ := isSimple_iff.mp simple
      exact .other noEscape noBracket inductionHypothesis

theorem ReadAs.tail
    {text : List Char}
    {unit : Lexeme}
    {rest : List Lexeme}
    (readAs : ReadAs text (unit :: rest)) :
    ∃ more, text = unit.text ++ more ∧ unit.text ≠ [] ∧ ReadAs more rest := by
  cases readAs with
  | escape c behind => exact ⟨_, rfl, List.cons_ne_nil _ _, behind⟩
  | loneEscape => exact ⟨[], rfl, List.cons_ne_nil _ _, .nil⟩
  | charClass charClass behind => exact ⟨_, rfl, List.cons_ne_nil _ _, behind⟩
  | openClass left => exact ⟨[], (List.append_nil _).symm, List.cons_ne_nil _ _, .nil⟩
  | other noEscape noBracket behind => exact ⟨_, rfl, List.cons_ne_nil _ _, behind⟩

/-! ## Problems -/

/-- Parts of a text with the places where they start, the first one at the given place. -/
def places {α : Type} (text : α → List Char) : Nat → List α → List (Nat × α)
  | _, [] => []
  | place, part :: rest => (place, part) :: places text (place + (text part).length) rest

/-- A blank in a class that opens with a closing bracket, a group behind an escaped parenthesis,
flags, a named group, and a class that is left open by an escape. -/
example :
    findings "[] ]\\((d)(?i)(?P<a>b)[c\\".toList =
      [⟨.spaceInClass, 0⟩, ⟨.capture, 6⟩, ⟨.capture, 13⟩, ⟨.openClass, 21⟩] := by
  decide

end NoticeScan.Pattern
