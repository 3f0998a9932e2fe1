import NoticeScan.Pattern.Compiled
import NoticeScan.Proofs.Spelling

/-!
# How phrases are widened

A phrase is a pattern of plain words with spaces or open words between them, and perhaps more at
its edges. It has no problems, and what it is widened to is put together word by word.
-/

namespace NoticeScan.Pattern

open NoticeScan.Regex NoticeScan.Text

/-! ## Phrases -/

/-- A word of letters from `A` to `Z` and `a` to `z` and of decimal digits. -/
structure Word where
  letters : List Char
  nonempty : letters ≠ []
  plain : ∀ c ∈ letters, isPlainWord c = true

/-- What stands between two words of a phrase. -/
inductive Joint where
  | space
  | optionalSpace
  /-- Any words. -/
  | words
  /-- Any words, at least one of them. -/
  | someWords
  deriving DecidableEq

/-- A joint as it is written. -/
def Joint.text : Joint → List Char
  | .space => [' ']
  | .optionalSpace => [' ', '?']
  | .words => [' ', '.', '*', ' ']
  | .someWords => [' ', '.', '+', ' ']

/-- What stands in front of a phrase or behind it. -/
inductive Edge where
  | firm
  /-- A dot and a star. -/
  | star
  /-- A dot and a plus. -/
  | plus
  deriving DecidableEq

/-- An edge as it is written. -/
def Edge.text : Edge → List Char
  | .firm => []
  | .star => ['.', '*']
  | .plus => ['.', '+']

/-- Whether anything may stand at an edge. -/
def Edge.isLoose : Edge → Bool
  | .firm => false
  | .star | .plus => true

/-- Words with joints between them, and the two edges. -/
structure Phrase where
  front : Edge
  first : Word
  rest : List (Joint × Word)
  back : Edge

namespace Phrase

/-- Joints with the words behind them, each joint spelled in some way. -/
def tail (spell : Joint → List Char) (rest : List (Joint × Word)) : List Char :=
  rest.flatMap fun (joint, word) => spell joint ++ word.letters

/-- A phrase without its edges, each joint spelled in some way. -/
def inner (spell : Joint → List Char) (phrase : Phrase) : List Char :=
  phrase.first.letters ++ tail spell phrase.rest

/-- A phrase as it is written. -/
def text (phrase : Phrase) : List Char :=
  phrase.front.text ++ phrase.inner Joint.text ++ phrase.back.text

end Phrase

/-! ## Texts without brackets -/

/-- Whether a character starts no escape, class or group. -/
def isBracketless (c : Char) : Bool :=
  c != '\\' && c != '[' && c != '('

theorem lexemes_bracketless
    {text : List Char}
    (bracketless : ∀ c ∈ text, isBracketless c = true) :
    lexemes text = text.map .other := by
  have general : ∀ steps, text.length ≤ steps → lexemesIn steps text = text.map .other := by
    intro steps enough
    induction text generalizing steps with
    | nil => cases steps <;> rfl
    | cons c rest inductionHypothesis =>
        obtain ⟨steps, rfl⟩ : ∃ more, steps = more + 1 := ⟨steps - 1, by simp at enough; omega⟩
        obtain ⟨here, later⟩ := List.forall_mem_cons.mp bracketless
        simp only [isBracketless, Bool.and_eq_true, bne_iff_ne] at here
        have further := inductionHypothesis later steps (Nat.le_of_succ_le_succ enough)
        unfold lexemesIn
        rw [if_neg here.1.1, if_neg here.1.2, further, List.map_cons]
  exact general _ (Nat.le_refl _)

theorem lexemeFindings_bracketless
    {text : List Char}
    (bracketless : ∀ c ∈ text, isBracketless c = true)
    (position : Nat) :
    lexemeFindings position (text.map .other) = [] := by
  induction text generalizing position with
  | nil => rfl
  | cons c rest inductionHypothesis =>
      obtain ⟨here, later⟩ := List.forall_mem_cons.mp bracketless
      simp only [isBracketless, Bool.and_eq_true, bne_iff_ne] at here
      have fine : problemOf (.other c) (rest.map .other) = none := by
        unfold problemOf
        split
        · rename_i same
          cases same
        · rename_i same
          cases same
        · rename_i same
          exact absurd (Lexeme.other.inj same) here.2
        · rfl
      rw [List.map_cons, lexemeFindings, fine]
      exact inductionHypothesis later _

theorem segments_bracketless
    {text : List Char}
    (bracketless : ∀ c ∈ text, isBracketless c = true) :
    segments text = [⟨text, false⟩] := by
  rw [segments, lexemes_bracketless bracketless]
  clear bracketless
  induction text with
  | nil => rfl
  | cons c rest inductionHypothesis =>
      rw [List.map_cons, segmentsOf, if_neg (by simp [Lexeme.isClass]), inductionHypothesis]
      rfl

/-! ## Phrases have no problems -/

theorem toNat_of_isPlainWord
    {c : Char}
    (word : isPlainWord c = true) :
    0x30 ≤ c.toNat ∧ c.toNat ≤ 0x7A := by
  simp only [isPlainWord, isPlainLetter, isDecimal, Bool.or_eq_true, Bool.and_eq_true,
    decide_eq_true_eq, Char.le_def, UInt32.le_iff_toNat_le] at word
  have digit : '0'.val.toNat = 0x30 ∧ '9'.val.toNat = 0x39 := by decide
  have capital : 'A'.val.toNat = 0x41 ∧ 'Z'.val.toNat = 0x5A := by decide
  have small : 'a'.val.toNat = 0x61 ∧ 'z'.val.toNat = 0x7A := by decide
  have value : c.toNat = c.val.toNat := rfl
  omega

theorem isBlank_of_isPlainWord
    {c : Char}
    (word : isPlainWord c = true) :
    isBlank c = false := by
  have range := toNat_of_isPlainWord word
  have small : c.toNat < 128 := by omega
  simp only [isBlank, isBlankPoint, if_pos small]
  simp
  omega

theorem Word.exists_cons (word : Word) :
    ∃ c rest, word.letters = c :: rest ∧ isPlainWord c = true := by
  obtain ⟨c, rest, spelled⟩ := List.exists_cons_of_ne_nil word.nonempty
  exact ⟨c, rest, spelled, word.plain c (spelled ▸ List.mem_cons_self)⟩

theorem isBracketless_of_isPlainWord
    {c : Char}
    (word : isPlainWord c = true) :
    isBracketless c = true := by
  have noEscape : c ≠ '\\' := ne_of_isPlainWord word rfl
  have noClass : c ≠ '[' := ne_of_isPlainWord word rfl
  have noGroup : c ≠ '(' := ne_of_isPlainWord word rfl
  simp [isBracketless, noEscape, noClass, noGroup]

namespace Phrase

/-- What holds of the characters of joints and of words holds of all characters of a phrase
without its edges. -/
theorem forall_mem_inner
    {spell : Joint → List Char}
    {p : Char → Prop}
    (ofJoint : ∀ joint, ∀ c ∈ spell joint, p c)
    (ofWord : ∀ c, isPlainWord c = true → p c)
    (phrase : Phrase) :
    ∀ c ∈ phrase.inner spell, p c := by
  have ofTail : ∀ c ∈ tail spell phrase.rest, p c := by
    intro c member
    obtain ⟨⟨joint, word⟩, -, inside⟩ := List.mem_flatMap.mp member
    rcases List.mem_append.mp inside with inJoint | inWord
    · exact ofJoint joint c inJoint
    · exact ofWord c (word.plain c inWord)
  intro c member
  rcases List.mem_append.mp member with inFirst | inTail
  · exact ofWord c (phrase.first.plain c inFirst)
  · exact ofTail c inTail

theorem bracketless_inner (phrase : Phrase) :
    ∀ c ∈ phrase.inner Joint.text, isBracketless c = true :=
  forall_mem_inner (by intro joint; cases joint <;> simp [Joint.text, isBracketless])
    (fun _ => isBracketless_of_isPlainWord) phrase

theorem bracketless_text (phrase : Phrase) :
    ∀ c ∈ phrase.text, isBracketless c = true := by
  have ofEdge : ∀ edge : Edge, ∀ c ∈ edge.text, isBracketless c = true := by
    intro edge
    cases edge <;> simp [Edge.text, isBracketless]
  exact List.forall_mem_append.mpr
    ⟨List.forall_mem_append.mpr ⟨ofEdge phrase.front, phrase.bracketless_inner⟩,
      ofEdge phrase.back⟩

/-- A phrase starts with its front edge and the first letter of its first word. -/
theorem exists_text_cons
    (phrase : Phrase) :
    ∃ c rest, phrase.text = phrase.front.text ++ c :: rest ∧ isPlainWord c = true := by
  obtain ⟨c, rest, spelled, word⟩ := phrase.first.exists_cons
  refine ⟨c, rest ++ tail Joint.text phrase.rest ++ phrase.back.text, ?_, word⟩
  rw [text, inner, spelled]
  simp

theorem findings_text (phrase : Phrase) :
    findings phrase.text = [] := by
  obtain ⟨c, rest, starts, word⟩ := phrase.exists_text_cons
  have noBlank := isBlank_of_isPlainWord word
  have some : phrase.text.all isBlank = false := by
    rw [starts, List.all_append, List.all_cons, noBlank, Bool.false_and, Bool.and_false]
  have noDot : c ≠ '.' := ne_of_isPlainWord word rfl
  have stops : isWildcards (c :: rest) = false := by
    unfold isWildcards
    split
    · rename_i same
      cases same
    · rename_i same
      exact absurd (List.cons.inj same).1 noDot
    · rename_i same
      rw [← (List.cons.inj same).1, noBlank, Bool.false_and]
  have more : isWildcards phrase.text = false := by
    rw [starts]
    cases phrase.front with
    | firm => exact stops
    | star => exact stops
    | plus => exact stops
  rw [findings, some, if_neg Bool.false_ne_true, more, if_neg Bool.false_ne_true,
    lexemes_bracketless phrase.bracketless_text]
  exact lexemeFindings_bracketless phrase.bracketless_text 0

/-! ## Edges of phrases -/

theorem looseStart_text (phrase : Phrase) :
    looseStart phrase.text = phrase.front.isLoose := by
  obtain ⟨c, rest, starts, word⟩ := phrase.exists_text_cons
  have noDot : c ≠ '.' := ne_of_isPlainWord word rfl
  rw [starts]
  cases phrase.front with
  | firm =>
      unfold looseStart
      split
      · rename_i same
        exact absurd (List.cons.inj same).1 noDot
      · rfl
  | star => rfl
  | plus => rfl

/-- A phrase ends with the last letter of its last word and its back edge. -/
theorem exists_text_append
    (phrase : Phrase) :
    ∃ start c, phrase.text = start ++ c :: phrase.back.text ∧ isPlainWord c = true := by
  have ofWord : ∀ word : Word, ∃ start c, word.letters = start ++ [c] ∧ isPlainWord c = true := by
    intro word
    obtain none | ⟨start, c, spelled⟩ := List.eq_nil_or_concat' word.letters
    · exact absurd none word.nonempty
    · exact ⟨start, c, spelled, word.plain c (by simp [spelled])⟩
  have ofInner : ∃ start c, phrase.inner Joint.text = start ++ [c] ∧ isPlainWord c = true := by
    obtain none | ⟨before, ⟨joint, word⟩, listed⟩ := List.eq_nil_or_concat' phrase.rest
    · obtain ⟨start, c, spelled, word⟩ := ofWord phrase.first
      exact ⟨start, c, by rw [inner, none, spelled]; simp [tail], word⟩
    · obtain ⟨start, c, spelled, plain⟩ := ofWord word
      refine ⟨phrase.first.letters ++ (tail Joint.text before ++ (joint.text ++ start)), c, ?_,
        plain⟩
      rw [inner, listed]
      simp [tail, spelled]
  obtain ⟨start, c, ends, word⟩ := ofInner
  exact ⟨phrase.front.text ++ start, c, by rw [text, ends]; simp, word⟩

theorem looseEnd_text (phrase : Phrase) :
    looseEnd phrase.text = phrase.back.isLoose := by
  obtain ⟨start, c, ends, word⟩ := phrase.exists_text_append
  have noBackslash : (some c != some '\\') = true := by
    simpa using (ne_of_isPlainWord word rfl : c ≠ '\\')
  have noSign : (c == '*' || c == '+') = false := by
    have noStar : c ≠ '*' := ne_of_isPlainWord word rfl
    have noPlus : c ≠ '+' := ne_of_isPlainWord word rfl
    simp [noStar, noPlus]
  rw [looseEnd, ends, List.reverse_append, List.reverse_cons]
  cases phrase.back with
  | firm =>
      unfold looseEndReversed
      split
      · rename_i same
        rw [← (List.cons.inj same).1, noSign, Bool.false_and]
        rfl
      · rfl
  | star => exact noBackslash
  | plus => exact noBackslash

/-- What is left of a phrase without its loose edges. -/
theorem core_text (phrase : Phrase) :
    core phrase.text = phrase.inner Joint.text := by
  have front : (if looseStart phrase.text then phrase.text.drop 2 else phrase.text) =
      phrase.inner Joint.text ++ phrase.back.text := by
    rw [looseStart_text, text, List.append_assoc]
    cases phrase.front <;> rfl
  rw [core, front, looseEnd_text]
  cases phrase.back with
  | firm => exact List.append_nil _
  | star => simp [Edge.text, Edge.isLoose]
  | plus => simp [Edge.text, Edge.isLoose]

end Phrase

/-! ## Open words of phrases -/

/-- A joint once its open words are widened. -/
def Joint.opened (limits : Limits) : Joint → Expr
  | .space => [' ']
  | .optionalSpace => [' ', '?']
  | .words => wildcard 0 limits
  | .someWords => wildcard 1 limits

section OpenWords

variable {limits : Limits} {c : Char}

theorem widenDots_letter
    (word : isPlainWord c = true)
    (rest : List Char)
    (skipping : Bool)
    (held : List Char)
    (before : Option Char) :
    widenDots limits (c :: rest) skipping held before =
      held.reverse ++ c :: widenDots limits rest false [] (some c) := by
  have noDot : c ≠ '.' := ne_of_isPlainWord word rfl
  rw [widenDots, isBlank_of_isPlainWord word, if_neg Bool.false_ne_true]
  exact fun _ _ dot => absurd dot noDot

/-- A joint is replaced, together with its spaces if it stands for words. -/
theorem widenDots_joint
    (joint : Joint)
    (word : isPlainWord c = true)
    (rest : List Char)
    (before : Option Char) :
    widenDots limits (joint.text ++ c :: rest) false [] before =
      joint.opened limits ++ c :: widenDots limits rest false [] (some c) := by
  have skipped : widenDots limits (' ' :: c :: rest) true [] =
      fun _ => c :: widenDots limits rest false [] (some c) := by
    funext last
    exact widenDots_letter word rest true [] _
  cases joint with
  | space => exact widenDots_letter word rest false [' '] _
  | optionalSpace => exact congrArg ([' ', '?'] ++ ·) (widenDots_letter word rest false [] _)
  | words => exact congrArg (wildcard 0 limits ++ ·) (congrFun skipped _)
  | someWords => exact congrArg (wildcard 1 limits ++ ·) (congrFun skipped _)

/-- Letters stay as they are, whatever comes of what is behind them. -/
theorem widenDots_letters
    {letters rest : List Char}
    {widened : Expr}
    (plain : ∀ c ∈ letters, isPlainWord c = true)
    (behind : ∀ before, widenDots limits rest false [] before = widened)
    (before : Option Char) :
    widenDots limits (letters ++ rest) false [] before = letters ++ widened := by
  induction letters generalizing before with
  | nil => exact behind before
  | cons c more inductionHypothesis =>
      obtain ⟨here, later⟩ := List.forall_mem_cons.mp plain
      rw [List.cons_append, widenDots_letter here, inductionHypothesis later]
      rfl

theorem Phrase.widenDots_tail
    (rest : List (Joint × Word))
    (before : Option Char) :
    widenDots limits (tail Joint.text rest) false [] before =
      tail (Joint.opened limits) rest := by
  induction rest generalizing before with
  | nil => rfl
  | cons pair others inductionHypothesis =>
      obtain ⟨joint, word⟩ := pair
      obtain ⟨c, more, spelled, plain⟩ := word.exists_cons
      have plainMore : ∀ d ∈ more, isPlainWord d = true :=
        fun d member => word.plain d (spelled ▸ List.mem_cons_of_mem c member)
      have unfolded : ∀ spell : Joint → List Char, tail spell ((joint, word) :: others) =
          spell joint ++ c :: (more ++ tail spell others) := by
        intro spell
        simp [tail, spelled]
      rw [unfolded, unfolded, widenDots_joint joint plain,
        widenDots_letters plainMore inductionHypothesis]

theorem Phrase.widenWords_inner (phrase : Phrase) :
    widenWords limits (phrase.inner Joint.text) = phrase.inner (Joint.opened limits) := by
  rw [widenWords, segments_bracketless phrase.bracketless_inner, List.flatMap_singleton,
    if_neg Bool.false_ne_true]
  exact widenDots_letters phrase.first.plain (widenDots_tail phrase.rest) none

end OpenWords

/-! ## Spaces of phrases -/

/-- A joint once it is widened. -/
def Joint.gap (limits : Limits) : Joint → Expr
  | .space => Pattern.space 1 limits
  | .optionalSpace => Pattern.space 0 limits
  | .words => wildcard 0 limits
  | .someWords => wildcard 1 limits

/-- A text without blanks. -/
def Solid (text : List Char) : Prop :=
  ∀ c ∈ text, isBlank c = false

instance (text : List Char) : Decidable (Solid text) :=
  List.decidableBAll (isBlank · = false) text

theorem sign_or_digit_of_mem_bound
    {n : Int}
    {c : Char}
    (member : c ∈ bound n) :
    c = '-' ∨ isDecimal c = true := by
  cases n with
  | ofNat m => exact Or.inr (isDecimal_of_mem_bound member)
  | negSucc m =>
      have spelled : bound (Int.negSucc m) = '-' :: bound ((m + 1 : Nat) : Int) := by
        have shown : bound (Int.negSucc m) = ("-" ++ Nat.repr (m + 1)).toList := rfl
        rw [shown, String.toList_append]
        rfl
      rw [spelled] at member
      rcases List.mem_cons.mp member with same | digit
      · exact Or.inl same
      · exact Or.inr (isDecimal_of_mem_bound digit)

theorem solid_bound (n : Int) :
    Solid (bound n) := by
  intro c member
  rcases sign_or_digit_of_mem_bound member with rfl | digit
  · rfl
  · exact isBlank_of_isPlainWord (Bool.or_eq_true_iff.mpr (Or.inr digit))

section Blanks

variable {text : List Char} {limits : Limits}

theorem Solid.append
    {more : List Char}
    (solid : Solid text)
    (solidMore : Solid more) :
    Solid (text ++ more) :=
  List.forall_mem_append.mpr ⟨solid, solidMore⟩

theorem Solid.cons
    {c : Char}
    (noBlank : isBlank c = false)
    (solid : Solid text) :
    Solid (c :: text) :=
  List.forall_mem_cons.mpr ⟨noBlank, solid⟩

theorem Solid.times
    (solid : Solid text)
    (low high : Int) :
    Solid (Pattern.times text low high) := by
  have lowBound : Solid (text ++ '\x7b' :: bound low) :=
    solid.append ((solid_bound low).cons rfl)
  have highBound : Solid (',' :: bound high ++ ['\x7d']) :=
    ((solid_bound high).cons rfl).append (by decide)
  have spelled : Pattern.times text low high =
      (text ++ '\x7b' :: bound low) ++ (',' :: bound high ++ ['\x7d']) := by
    simp [Pattern.times]
  rw [spelled]
  exact lowBound.append highBound

theorem Solid.group (solid : Solid text) :
    Solid (Pattern.group text) :=
  Solid.append (Solid.append (by decide +kernel) solid) (by decide)

theorem solid_space (low : Int) :
    Solid (Pattern.space low limits) :=
  Solid.times (by decide +kernel) low limits.spaceLength

theorem solid_wildcard (low : Int) :
    Solid (wildcard low limits) :=
  (((solid_space 1).append (Solid.times (by decide +kernel) 1 limits.nameLength)).group.times low
    limits.nameRepetition).append (solid_space 0)

theorem widenBlanks_solid
    (solid : Solid text)
    (rest : List Char) :
    widenBlanks limits false (text ++ rest) = text ++ widenBlanks limits false rest := by
  induction text with
  | nil => rfl
  | cons c more inductionHypothesis =>
      obtain ⟨here, later⟩ := List.forall_mem_cons.mp solid
      rw [List.cons_append, widenBlanks, here, inductionHypothesis later]
      rfl

/-- A joint in front of a word is replaced. -/
theorem widenBlanks_joint
    {c : Char}
    (joint : Joint)
    (word : isPlainWord c = true)
    (rest : List Char) :
    widenBlanks limits false (joint.opened limits ++ c :: rest) =
      joint.gap limits ++ c :: widenBlanks limits false rest := by
  have noBlank := isBlank_of_isPlainWord word
  have noMark : (c == '?') = false := beq_false_of_ne (ne_of_isPlainWord word rfl)
  have letter : widenBlanks limits false (c :: rest) = c :: widenBlanks limits false rest :=
    widenBlanks_solid (List.forall_mem_singleton.mpr noBlank) rest
  cases joint with
  | space =>
      have run : widenBlanks limits true (c :: rest) =
          space 1 limits ++ c :: widenBlanks limits false rest := by
        rw [widenBlanks, noBlank, noMark]
        rfl
      exact run
  | optionalSpace => exact congrArg (space 0 limits ++ ·) letter
  | words => rw [Joint.opened, widenBlanks_solid (solid_wildcard 0), letter, Joint.gap]
  | someWords => rw [Joint.opened, widenBlanks_solid (solid_wildcard 1), letter, Joint.gap]

end Blanks

/-! ## What a phrase is widened to -/

/-- An edge once it is widened. -/
def Edge.expr (edge : Edge) : Expr :=
  if edge.isLoose then "(?:.*)".toList else []

namespace Phrase

theorem solid_word (word : Word) :
    Solid word.letters :=
  fun c member => isBlank_of_isPlainWord (word.plain c member)

theorem widenBlanks_tail
    {limits : Limits}
    (rest : List (Joint × Word)) :
    widenBlanks limits false (tail (Joint.opened limits) rest) = tail (Joint.gap limits) rest := by
  induction rest with
  | nil => rfl
  | cons pair others inductionHypothesis =>
      obtain ⟨joint, word⟩ := pair
      obtain ⟨c, more, spelled, plain⟩ := word.exists_cons
      have solid : Solid more :=
        fun d member => solid_word word d (spelled ▸ List.mem_cons_of_mem c member)
      have unfolded : ∀ spell : Joint → List Char, tail spell ((joint, word) :: others) =
          spell joint ++ c :: (more ++ tail spell others) := by
        intro spell
        simp [tail, spelled]
      rw [unfolded, unfolded, widenBlanks_joint joint plain, widenBlanks_solid solid,
        inductionHypothesis]

/-- A phrase is widened joint by joint. -/
theorem widen_text
    (phrase : Phrase)
    (limits : Limits) :
    widen limits phrase.text = phrase.inner (Joint.gap limits) := by
  rw [widen, core_text, widenWords_inner, inner, widenBlanks_solid (solid_word phrase.first),
    widenBlanks_tail]
  rfl

theorem wholeExpr_text
    (phrase : Phrase)
    (body : Expr) :
    wholeExpr phrase.text body = phrase.front.expr ++ group body ++ phrase.back.expr := by
  rw [wholeExpr, looseStart_text, looseEnd_text]
  rfl

end Phrase

end NoticeScan.Pattern
