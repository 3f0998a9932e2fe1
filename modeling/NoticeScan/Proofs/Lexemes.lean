import NoticeScan.Proofs.FreeBlanks

/-!
# Texts and their lexemes

Lexemes are read one after the other, without a look at what is behind them. What a text is cut
into is told here apart from the number of steps that this takes, together with the texts that
leave nothing open, so that they can stand in front of any other.
-/

namespace NoticeScan.Pattern

open NoticeScan.Text

/-! ## Reading lexemes one by one -/

/-- Whether a character is a lexeme by itself wherever it stands. -/
def isSimple (c : Char) : Bool :=
  c != '\\' && c != '['

theorem isSimple_iff
    {c : Char} :
    isSimple c = true ↔ c ≠ '\\' ∧ c ≠ '[' := by
  rw [isSimple, Bool.and_eq_true, bne_iff_ne, bne_iff_ne]

theorem lexemesIn_simple
    {c : Char}
    (simple : isSimple c = true)
    (steps : Nat)
    (rest : List Char) :
    lexemesIn (steps + 1) (c :: rest) = .other c :: lexemesIn steps rest := by
  obtain ⟨noEscape, noBracket⟩ := isSimple_iff.mp simple
  exact (if_neg noEscape).trans (if_neg noBracket)

/-- A text is cut into the same lexemes however many steps are left over. -/
theorem lexemesIn_eq
    {steps : Nat}
    {text : List Char}
    (enough : text.length ≤ steps) :
    lexemesIn steps text = lexemes text := by
  have general : ∀ steps more text, text.length ≤ steps → text.length ≤ more →
      lexemesIn steps text = lexemesIn more text := by
    intro steps
    induction steps with
    | zero =>
        intro more text few _
        rw [List.eq_nil_of_length_eq_zero (Nat.le_zero.mp few)]
        cases more <;> rfl
    | succ steps inductionHypothesis =>
        intro more text few fits
        cases text with
        | nil => cases more <;> rfl
        | cons c rest =>
            obtain ⟨more, rfl⟩ : ∃ less, more = less + 1 :=
              Nat.exists_eq_add_one_of_ne_zero (Nat.ne_of_gt (Nat.lt_of_lt_of_le (by simp) fits))
            have fewer : rest.length ≤ steps := Nat.le_of_succ_le_succ few
            have fitsMore : rest.length ≤ more := Nat.le_of_succ_le_succ fits
            by_cases simple : isSimple c = true
            · rw [lexemesIn_simple simple, lexemesIn_simple simple,
                inductionHypothesis more rest fewer fitsMore]
            · by_cases escape : c = '\\'
              · subst escape
                cases rest with
                | nil => rfl
                | cons d behind =>
                    exact congrArg (_ :: ·) (inductionHypothesis more behind
                      (Nat.le_of_succ_le fewer) (Nat.le_of_succ_le fitsMore))
              · obtain rfl : c = '[' := by
                  by_contra noBracket
                  exact simple (isSimple_iff.mpr ⟨escape, noBracket⟩)
                have shorter := classLexeme_length rest
                exact congrArg (_ :: ·) (inductionHypothesis more _
                  (Nat.le_trans shorter fewer) (Nat.le_trans shorter fitsMore))
  exact general steps text.length text enough (Nat.le_refl _)

@[simp]
theorem lexemes_nil : lexemes [] = [] :=
  rfl

theorem lexemes_escape
    (c : Char)
    (rest : List Char) :
    lexemes ('\\' :: c :: rest) = .escape (some c) :: lexemes rest :=
  congrArg (_ :: ·) (lexemesIn_eq (Nat.le_succ rest.length))

theorem lexemes_bracket (rest : List Char) :
    lexemes ('[' :: rest) = (classLexeme rest).1 :: lexemes (classLexeme rest).2 :=
  congrArg (_ :: ·) (lexemesIn_eq (classLexeme_length rest))

theorem lexemes_simple
    {c : Char}
    (simple : isSimple c = true)
    (rest : List Char) :
    lexemes (c :: rest) = .other c :: lexemes rest :=
  lexemesIn_simple simple rest.length rest

/-! ## Classes -/

/-- A member of a class: an escape, or a character that neither escapes nor closes the class. -/
inductive ClassMember where
  | escape (c : Char)
  | plain (c : Char) (noEscape : c ≠ '\\') (noBracket : c ≠ ']')

/-- A member as written. -/
def ClassMember.text : ClassMember → List Char
  | .escape c => ['\\', c]
  | .plain c _ _ => [c]

/-- Whether a member is a blank that is not escaped. -/
def ClassMember.isBlank : ClassMember → Bool
  | .escape _ => false
  | .plain c _ _ => Text.isBlank c

/-- A character class. A caret and then a closing bracket belong to its opening if they can. -/
structure CharClass where
  caret : Bool
  bracket : Bool
  members : List ClassMember
  caret_taken : caret = false → bracket = false → members.head?.map ClassMember.text ≠ some ['^']
  bracket_taken : bracket = false → members ≠ []

namespace CharClass

/-- What belongs to the opening of a class behind its bracket. -/
def opening (charClass : CharClass) : List Char :=
  (if charClass.caret then ['^'] else []) ++ if charClass.bracket then [']'] else []

/-- What is behind the opening of a class up to its end. -/
def body (charClass : CharClass) : List Char :=
  charClass.members.flatMap ClassMember.text ++ [']']

/-- A class as written. -/
def text (charClass : CharClass) : List Char :=
  '[' :: (charClass.opening ++ charClass.body)

/-- Whether a blank stands in a class unescaped. -/
def isSpaced (charClass : CharClass) : Bool :=
  charClass.members.any ClassMember.isBlank

end CharClass

theorem classTail_members (members : List ClassMember) (rest : List Char) :
    classTail (members.flatMap ClassMember.text ++ ']' :: rest) =
      some (members.flatMap ClassMember.text ++ [']'], members.any ClassMember.isBlank, rest) := by
  induction members with
  | nil => rfl
  | cons member others inductionHypothesis =>
      rw [List.flatMap_cons, List.append_assoc, List.append_assoc, List.any_cons]
      cases member with
      | escape c =>
          rw [ClassMember.text, List.cons_append, List.singleton_append, classTail,
            inductionHypothesis]
          rfl
      | plain c noEscape noBracket =>
          rw [ClassMember.text, List.singleton_append, classTail, if_neg noEscape, inductionHypothesis]
          · rfl
          · exact noBracket
          · exact fun _ _ same _ => noEscape same

theorem exists_members
    {text body behind : List Char}
    {spaced : Bool}
    (closed : classTail text = some (body, spaced, behind)) :
    ∃ members : List ClassMember,
      body = members.flatMap ClassMember.text ++ [']'] ∧ spaced = members.any ClassMember.isBlank := by
  fun_induction classTail text generalizing body behind spaced with
  | case1 => cases closed
  | case2 rest =>
      cases closed
      exact ⟨[], rfl, rfl⟩
  | case3 c rest inductionHypothesis =>
      obtain ⟨⟨tail, flag, last⟩, found, same⟩ := Option.map_eq_some_iff.mp closed
      cases same
      obtain ⟨members, rfl, rfl⟩ := inductionHypothesis found
      exact ⟨.escape c :: members, rfl, rfl⟩
  | case4 => cases closed
  | case5 c rest noBracket _ noEscape inductionHypothesis =>
      obtain ⟨⟨tail, flag, last⟩, found, same⟩ := Option.map_eq_some_iff.mp closed
      cases same
      obtain ⟨members, rfl, rfl⟩ := inductionHypothesis found
      exact ⟨.plain c noEscape noBracket :: members, rfl, rfl⟩

/-- Behind the opening of a class stands nothing that would belong to it. -/
theorem CharClass.exists_body
    {charClass : CharClass}
    (noBracket : charClass.bracket = false) :
    ∃ c more, charClass.body = c :: more ∧ c ≠ ']' ∧ (charClass.caret = false → c ≠ '^') := by
  obtain ⟨member, others, whole⟩ :=
    List.exists_cons_of_ne_nil (charClass.bracket_taken noBracket)
  have noCaret := fun without => charClass.caret_taken without noBracket
  rw [body, whole]
  rw [whole] at noCaret
  cases member with
  | escape c => exact ⟨'\\', _, rfl, by decide, fun _ => by decide⟩
  | plain c noEscape noBracket =>
      refine ⟨c, _, rfl, noBracket, ?_⟩
      rintro without rfl
      exact noCaret without rfl

theorem CharClass.classHead_text (charClass : CharClass) (rest : List Char) :
    classHead (charClass.opening ++ (charClass.body ++ rest)) =
      (charClass.opening, charClass.body ++ rest) := by
  cases bracket : charClass.bracket with
  | true => cases caret : charClass.caret <;> simp [opening, bracket, caret, classHead]
  | false =>
      obtain ⟨c, more, whole, noBracket, noCaret⟩ := exists_body bracket
      cases caret : charClass.caret with
      | true => simp [opening, bracket, caret, whole, classHead, noBracket]
      | false => simp [opening, bracket, caret, whole, classHead, noBracket, noCaret caret]

theorem CharClass.lexemes_text (charClass : CharClass) (rest : List Char) :
    lexemes (charClass.text ++ rest) =
      .charClass charClass.text charClass.isSpaced :: lexemes rest := by
  have closed : classTail (charClass.body ++ rest) =
      some (charClass.body, charClass.isSpaced, rest) := by
    rw [body, List.append_assoc]
    exact classTail_members charClass.members rest
  have head := charClass.classHead_text rest
  rw [text, List.cons_append, List.append_assoc, lexemes_bracket, classLexeme, head]
  simp only [closed, List.cons_append]

theorem exists_charClass
    {rest tail behind : List Char}
    {spaced : Bool}
    (closed : classTail (classHead rest).2 = some (tail, spaced, behind)) :
    ∃ charClass : CharClass,
      '[' :: (classHead rest).1 ++ tail = charClass.text ∧ spaced = charClass.isSpaced := by
  obtain ⟨members, rfl, rfl⟩ := exists_members closed
  have whole := classTail_append closed
  revert whole
  fun_cases classHead rest with
  | case1 behind =>
      exact fun _ => ⟨⟨true, true, members, by simp, by simp⟩, rfl, rfl⟩
  | case2 others noBracket =>
      intro whole
      have nonempty : members ≠ [] := by
        rintro rfl
        exact noBracket behind whole.symm
      exact ⟨⟨true, false, members, by simp, fun _ => nonempty⟩, rfl, rfl⟩
  | case3 behind =>
      exact fun _ => ⟨⟨false, true, members, by simp, by simp⟩, rfl, rfl⟩
  | case4 rest noBoth noCaret noBracket =>
      intro whole
      have nonempty : members ≠ [] := by
        rintro rfl
        exact noBracket behind whole.symm
      have noCaretFirst : members.head?.map ClassMember.text ≠ some ['^'] := by
        intro caret
        obtain ⟨member, others, rfl⟩ := List.exists_cons_of_ne_nil nonempty
        rw [List.flatMap_cons, Option.some.inj caret] at whole
        exact noCaret _ whole.symm
      exact ⟨⟨false, false, members, fun _ _ => noCaretFirst, fun _ => nonempty⟩, rfl, rfl⟩

/-- A character class as it is written: it ends where its brackets end, whatever is behind. -/
structure IsClass (text : List Char) (spaced : Bool) : Prop where
  starts : ∃ inner, text = '[' :: inner
  ends : text.getLast? = some ']'
  read : ∀ more, lexemes (text ++ more) = .charClass text spaced :: lexemes more

theorem CharClass.isClass (charClass : CharClass) :
    IsClass charClass.text charClass.isSpaced where
  starts := ⟨_, rfl⟩
  ends := by rw [text, body, ← List.append_assoc, ← List.cons_append, List.getLast?_concat]
  read := charClass.lexemes_text

theorem isClass_of_classTail
    {rest tail behind : List Char}
    {spaced : Bool}
    (closed : classTail (classHead rest).2 = some (tail, spaced, behind)) :
    IsClass ('[' :: (classHead rest).1 ++ tail) spaced := by
  obtain ⟨charClass, written, rfl⟩ := exists_charClass closed
  exact written ▸ charClass.isClass

theorem classLexeme_cases (rest : List Char) :
    (∃ text spaced behind, IsClass text spaced ∧ '[' :: rest = text ++ behind) ∨
      lexemes ('[' :: rest) = [.openClass ('[' :: rest)] := by
  cases closed : classTail (classHead rest).2 with
  | some found =>
      obtain ⟨tail, spaced, behind⟩ := found
      refine Or.inl ⟨_, spaced, behind, isClass_of_classTail closed, ?_⟩
      rw [List.cons_append, List.cons_append, List.append_assoc, classTail_append closed,
        classHead_append]
  | none =>
      refine Or.inr ?_
      rw [lexemes_bracket, classLexeme, closed]
      rfl

/-! ## What lexemes a text has -/

/-- Lexemes that a text is cut into. A backslash or a class that is left open is the last. -/
inductive Written : List Lexeme → Prop
  | nil : Written []
  | lone : Written [.escape none]
  | openClass {inner : List Char} :
      lexemes ('[' :: inner) = [.openClass ('[' :: inner)] → Written [.openClass ('[' :: inner)]
  | escape (c : Char) {rest : List Lexeme} :
      Written rest → Written (.escape (some c) :: rest)
  | charClass {text : List Char} {spaced : Bool} {rest : List Lexeme} :
      IsClass text spaced → Written rest → Written (.charClass text spaced :: rest)
  | other {c : Char} {rest : List Lexeme} :
      isSimple c = true → Written rest → Written (.other c :: rest)

theorem written_lexemes (text : List Char) :
    Written (lexemes text) := by
  have general : ∀ steps (text : List Char), text.length ≤ steps → Written (lexemes text) := by
    intro steps
    induction steps with
    | zero =>
        intro text few
        rw [List.eq_nil_of_length_eq_zero (Nat.le_zero.mp few)]
        exact .nil
    | succ steps inductionHypothesis =>
        intro text few
        cases text with
        | nil => exact .nil
        | cons c rest =>
            have fewer : rest.length ≤ steps := Nat.le_of_succ_le_succ few
            by_cases simple : isSimple c = true
            · rw [lexemes_simple simple]
              exact .other simple (inductionHypothesis rest fewer)
            · by_cases escape : c = '\\'
              · subst escape
                cases rest with
                | nil => exact .lone
                | cons d behind =>
                    rw [lexemes_escape]
                    exact .escape d (inductionHypothesis behind (Nat.le_of_succ_le fewer))
              · obtain rfl : c = '[' := by
                  by_contra noBracket
                  exact simple (isSimple_iff.mpr ⟨escape, noBracket⟩)
                rcases classLexeme_cases rest with ⟨text, spaced, behind, isClass, whole⟩ | opened
                · have shorter : behind.length ≤ steps := by
                    obtain ⟨inner, rfl⟩ := isClass.starts
                    have same := congrArg List.length whole
                    simp only [List.length_cons, List.length_append] at same
                    omega
                  rw [whole, isClass.read]
                  exact .charClass isClass (inductionHypothesis behind shorter)
                · rw [opened]
                  exact .openClass opened
  exact general text.length text (Nat.le_refl _)

/-- Lexemes that a text may be cut into are what their own text is cut into. -/
theorem Written.lexemes_eq
    {units : List Lexeme}
    (written : Written units) :
    lexemes (units.flatMap Lexeme.text) = units := by
  induction written with
  | nil => rfl
  | lone => rfl
  | openClass opened =>
      rw [List.flatMap_singleton]
      exact opened
  | escape c written inductionHypothesis =>
      rw [List.flatMap_cons]
      exact (lexemes_escape c _).trans (congrArg _ inductionHypothesis)
  | charClass isClass written inductionHypothesis =>
      rw [List.flatMap_cons]
      exact (isClass.read _).trans (congrArg _ inductionHypothesis)
  | other simple written inductionHypothesis =>
      rw [List.flatMap_cons]
      exact (lexemes_simple simple _).trans (congrArg _ inductionHypothesis)

/-! ## Texts that leave nothing open -/

/-- A text that is cut into the same lexemes whatever is behind it, and leaves what is behind
alone. -/
def Whole (text : List Char) : Prop :=
  ∀ rest, lexemes (text ++ rest) = lexemes text ++ lexemes rest

/-- Whether a lexeme ends by itself and not with the text. -/
def Lexeme.isClosed : Lexeme → Bool
  | .escape none | .openClass _ => false
  | _ => true

theorem whole_of_closed
    {text : List Char}
    (closed : (lexemes text).all Lexeme.isClosed = true) :
    Whole text := by
  intro rest
  have general : ∀ {units : List Lexeme}, Written units → units.all Lexeme.isClosed = true →
      lexemes (units.flatMap Lexeme.text ++ rest) = units ++ lexemes rest := by
    intro units written closed
    induction written with
    | nil => rfl
    | lone => cases closed
    | openClass opened => cases closed
    | escape c written inductionHypothesis =>
        rw [List.flatMap_cons, List.append_assoc]
        exact (lexemes_escape c _).trans (congrArg _ (inductionHypothesis closed))
    | charClass isClass written inductionHypothesis =>
        rw [List.flatMap_cons, List.append_assoc]
        exact (isClass.read _).trans (congrArg _ (inductionHypothesis closed))
    | other simple written inductionHypothesis =>
        rw [List.flatMap_cons, List.append_assoc]
        exact (lexemes_simple simple _).trans (congrArg _ (inductionHypothesis closed))
  have whole := general (written_lexemes text) closed
  rwa [flatMap_lexemes] at whole

theorem whole_nil : Whole [] :=
  fun _ => rfl

theorem Whole.append
    {text more : List Char}
    (whole : Whole text)
    (wholeMore : Whole more) :
    Whole (text ++ more) := by
  intro rest
  rw [List.append_assoc, whole, wholeMore, whole, List.append_assoc]

theorem lexemes_simples
    {text : List Char}
    (simple : ∀ c ∈ text, isSimple c = true)
    (rest : List Char) :
    lexemes (text ++ rest) = text.map .other ++ lexemes rest := by
  induction text with
  | nil => rfl
  | cons c more inductionHypothesis =>
      obtain ⟨here, later⟩ := List.forall_mem_cons.mp simple
      rw [List.cons_append, lexemes_simple here, inductionHypothesis later]
      rfl

theorem whole_simples
    {text : List Char}
    (simple : ∀ c ∈ text, isSimple c = true) :
    Whole text := by
  intro rest
  have alone := lexemes_simples simple []
  rw [List.append_nil, lexemes_nil, List.append_nil] at alone
  rw [lexemes_simples simple, alone]

theorem whole_escape (c : Char) :
    Whole ['\\', c] :=
  fun rest => lexemes_escape c rest

theorem IsClass.lexemes_eq
    {text : List Char}
    {spaced : Bool}
    (isClass : IsClass text spaced) :
    lexemes text = [.charClass text spaced] := by
  have alone := isClass.read []
  rwa [List.append_nil] at alone

theorem IsClass.whole
    {text : List Char}
    {spaced : Bool}
    (isClass : IsClass text spaced) :
    Whole text := by
  intro rest
  rw [isClass.read, isClass.lexemes_eq]
  rfl

/-! ### The vocabulary -/

theorem isSimple_of_mem_bound
    {n : Int}
    {c : Char}
    (member : c ∈ bound n) :
    isSimple c = true := by
  rcases sign_or_digit_of_mem_bound member with rfl | digit
  · rfl
  · refine isSimple_iff.mpr ⟨?_, ?_⟩ <;> rintro rfl <;> cases digit

theorem Whole.times
    {text : List Char}
    (whole : Whole text)
    (low high : Int) :
    Whole (Pattern.times text low high) := by
  have bounds : ∀ c ∈ '\x7b' :: bound low ++ ',' :: bound high ++ ['\x7d'],
      isSimple c = true := by
    intro c member
    simp only [List.mem_append, List.mem_cons, List.not_mem_nil, or_false] at member
    rcases member with ((rfl | inLow) | rfl | inHigh) | rfl
    · rfl
    · exact isSimple_of_mem_bound inLow
    · rfl
    · exact isSimple_of_mem_bound inHigh
    · rfl
  have spelled : Pattern.times text low high =
      text ++ ('\x7b' :: bound low ++ ',' :: bound high ++ ['\x7d']) := by
    simp [Pattern.times]
  rw [spelled]
  exact whole.append (whole_simples bounds)

variable {limits : Limits}

theorem whole_space (low : Int) :
    Whole (Pattern.space low limits) :=
  Whole.times (whole_of_closed (by decide)) low limits.spaceLength

/-- A group of any words, behind an opening that may be escaped. -/
theorem whole_words
    {opening : List Char}
    (whole : Whole opening) :
    Whole (opening ++ (Pattern.space 1 limits ++ times wordChar 1 limits.nameLength) ++ [')']) := by
  have word : Whole (times wordChar 1 limits.nameLength) :=
    Whole.times (whole_of_closed (by decide)) 1 limits.nameLength
  exact (whole.append ((whole_space 1).append word)).append (whole_of_closed (by decide))

theorem whole_wildcard (low : Int) :
    Whole (wildcard low limits) := by
  have opening : Whole "(?:".toList := whole_of_closed (by decide)
  exact ((whole_words opening).times low limits.nameRepetition).append (whole_space 0)

/-- A backslash takes the bracket off the class of blanks. -/
theorem whole_escapedSpace (low : Int) :
    Whole ('\\' :: Pattern.space low limits) := by
  have first : Whole ('\\' :: blank) := whole_of_closed (by decide)
  exact first.times low limits.spaceLength

/-- A backslash takes the parenthesis off the group of words. -/
theorem whole_escapedWildcard (low : Int) :
    Whole ('\\' :: wildcard low limits) := by
  have opening : Whole ('\\' :: "(?:".toList) := whole_of_closed (by decide)
  exact ((whole_words opening).times low limits.nameRepetition).append (whole_space 0)

/-! ## Widening lexeme by lexeme -/

/-- Replaces the open words among lexemes, with the state that the replacement has in a stretch
of text between classes. -/
def widenUnits (limits : Limits) :
    (units : List Lexeme) → (skipping : Bool) → (held : List Char) → (before : Option Char) →
      List Char
  | [], _, held, _ => held.reverse
  | .other '.' :: .other c :: rest, _, held, before =>
      if (c == '*' || c == '+') && (!held.isEmpty || before != some '\\') then
        wildcard (if c == '+' then 1 else 0) limits ++ widenUnits limits rest true [] (some c)
      else
        held.reverse ++ '.' :: widenUnits limits (.other c :: rest) false [] (some '.')
  | .other c :: rest, skipping, held, _ =>
      if isBlank c then
        if skipping then widenUnits limits rest true [] (some c)
        else widenUnits limits rest false (c :: held) (some c)
      else
        held.reverse ++ c :: widenUnits limits rest false [] (some c)
  | .escape none :: rest, _, held, _ =>
      held.reverse ++ '\\' :: widenUnits limits rest false [] (some '\\')
  | .escape (some c) :: rest, _, held, _ =>
      held.reverse ++ '\\' ::
        if isBlank c then widenUnits limits rest false [c] (some c)
        else c :: widenUnits limits rest false [] (some c)
  | .charClass text _ :: rest, _, held, _ =>
      held.reverse ++ (text ++ widenUnits limits rest false [] none)
  | .openClass text :: rest, _, held, _ =>
      held.reverse ++ (text ++ widenUnits limits rest false [] none)

theorem segmentsOf_text
    {unit : Lexeme}
    {rest : List Lexeme}
    {front : List Char}
    {more : List Segment}
    (text : unit.isClass = false)
    (cut : segmentsOf rest = ⟨front, false⟩ :: more) :
    segmentsOf (unit :: rest) = ⟨unit.text ++ front, false⟩ :: more := by
  rw [segmentsOf, text, if_neg Bool.false_ne_true, cut]

theorem segmentsOf_class
    {unit : Lexeme}
    (isClass : unit.isClass = true)
    (rest : List Lexeme) :
    segmentsOf (unit :: rest) = ⟨[], false⟩ :: ⟨unit.text, true⟩ :: segmentsOf rest := by
  rw [segmentsOf, isClass, if_pos rfl]

theorem exists_segmentsOf_eq (units : List Lexeme) :
    ∃ front more, segmentsOf units = ⟨front, false⟩ :: more := by
  induction units with
  | nil => exact ⟨[], [], rfl⟩
  | cons unit rest inductionHypothesis =>
      obtain ⟨front, more, cut⟩ := inductionHypothesis
      cases isClass : unit.isClass with
      | true => exact ⟨_, _, segmentsOf_class isClass rest⟩
      | false => exact ⟨_, _, segmentsOf_text isClass cut⟩

theorem head_of_segmentsOf
    {units : List Lexeme}
    {d : Char}
    {front : List Char}
    {more : List Segment}
    (cut : segmentsOf units = ⟨d :: front, false⟩ :: more) :
    d = '\\' ∨ ∃ rest, units = .other d :: rest := by
  cases units with
  | nil => cases cut
  | cons unit rest =>
      obtain ⟨next, others, behind⟩ := exists_segmentsOf_eq rest
      cases unit with
      | charClass text spaced => rw [segmentsOf_class rfl] at cut; cases cut
      | openClass text => rw [segmentsOf_class rfl] at cut; cases cut
      | other c =>
          rw [segmentsOf_text rfl behind] at cut
          cases cut
          exact Or.inr ⟨rest, rfl⟩
      | escape c =>
          rw [segmentsOf_text rfl behind] at cut
          cases c <;> cases cut <;> exact Or.inl rfl

/-- What becomes of a character that leaves no words open. -/
theorem widenDots_step
    {c : Char}
    {next held : List Char}
    {skipping : Bool}
    {before : Option Char}
    (shut : ∀ d more, next = d :: more → c = '.' →
      ¬((d == '*' || d == '+') && (!held.isEmpty || before != some '\\')) = true) :
    widenDots limits (c :: next) skipping held before =
      if isBlank c then
        if skipping then widenDots limits next true [] (some c)
        else widenDots limits next false (c :: held) (some c)
      else
        held.reverse ++ c :: widenDots limits next false [] (some c) := by
  by_cases dot : ∃ d more, next = d :: more ∧ c = '.'
  · obtain ⟨d, more, rfl, rfl⟩ := dot
    rw [widenDots, if_neg (shut d more rfl rfl)]
    rfl
  · rw [widenDots]
    exact fun d more isDot same => dot ⟨d, more, same, isDot⟩

theorem shut_of_segmentsOf
    {c : Char}
    {rest : List Lexeme}
    {next held : List Char}
    {others : List Segment}
    {before : Option Char}
    (shut : ∀ d more, rest = .other d :: more → c = '.' → False)
    (cut : segmentsOf rest = ⟨next, false⟩ :: others) :
    ∀ d more, next = d :: more → c = '.' →
      ¬((d == '*' || d == '+') && (!held.isEmpty || before != some '\\')) = true := by
  rintro d more rfl dot opens
  rcases head_of_segmentsOf cut with rfl | ⟨behind, rfl⟩
  · cases opens
  · exact shut d behind rfl dot

/-- A class ends the stretch before it and is followed by another one. -/
theorem widenDots_class
    {unit : Lexeme}
    {rest : List Lexeme}
    {front : List Char}
    {more : List Segment}
    {skipping : Bool}
    {held : List Char}
    {before : Option Char}
    (isClass : unit.isClass = true)
    (cut : segmentsOf (unit :: rest) = ⟨front, false⟩ :: more)
    (widened : ∀ {front more}, segmentsOf rest = ⟨front, false⟩ :: more →
      widenUnits limits rest false [] none =
        widenDots limits front false [] none ++ more.flatMap (Segment.widened limits)) :
    held.reverse ++ (unit.text ++ widenUnits limits rest false [] none) =
      widenDots limits front skipping held before ++ more.flatMap (Segment.widened limits) := by
  obtain ⟨next, others, behind⟩ := exists_segmentsOf_eq rest
  rw [segmentsOf_class isClass, behind] at cut
  cases cut
  rw [widened behind, List.flatMap_cons, List.flatMap_cons, widenDots]
  rfl

/-- Open words are replaced in one pass over the lexemes. -/
theorem widenUnits_eq
    {units : List Lexeme}
    {front : List Char}
    {more : List Segment}
    (cut : segmentsOf units = ⟨front, false⟩ :: more)
    (skipping : Bool)
    (held : List Char)
    (before : Option Char) :
    widenUnits limits units skipping held before =
      widenDots limits front skipping held before ++ more.flatMap (Segment.widened limits) := by
  fun_induction widenUnits limits units skipping held before generalizing front more with
  | case1 =>
      cases cut
      exact (List.append_nil _).symm
  | case2 skipping c rest held before opens inductionHypothesis =>
      obtain ⟨next, others, behind⟩ := exists_segmentsOf_eq rest
      rw [segmentsOf_text rfl (segmentsOf_text rfl behind)] at cut
      cases cut
      rw [inductionHypothesis behind, Lexeme.text, Lexeme.text, List.singleton_append,
        List.singleton_append, widenDots, if_pos opens, List.append_assoc]
  | case3 skipping c rest held before shut inductionHypothesis =>
      obtain ⟨next, others, behind⟩ := exists_segmentsOf_eq rest
      have inner : segmentsOf (.other c :: rest) = ⟨c :: next, false⟩ :: others :=
        segmentsOf_text rfl behind
      rw [segmentsOf_text rfl inner] at cut
      cases cut
      rw [inductionHypothesis inner, Lexeme.text, List.singleton_append, widenDots, if_neg shut,
        List.append_assoc]
      rfl
  | case4 before c rest held shut blank inductionHypothesis =>
      obtain ⟨next, others, behind⟩ := exists_segmentsOf_eq rest
      rw [segmentsOf_text rfl behind] at cut
      cases cut
      rw [inductionHypothesis behind, Lexeme.text, List.singleton_append,
        widenDots_step (shut_of_segmentsOf shut behind), if_pos blank, if_pos rfl]
  | case5 before c rest skipping held shut blank passing inductionHypothesis =>
      obtain ⟨next, others, behind⟩ := exists_segmentsOf_eq rest
      rw [segmentsOf_text rfl behind] at cut
      cases cut
      rw [inductionHypothesis behind, Lexeme.text, List.singleton_append,
        widenDots_step (shut_of_segmentsOf shut behind), if_pos blank, if_neg passing]
  | case6 before c rest skipping held shut plain inductionHypothesis =>
      obtain ⟨next, others, behind⟩ := exists_segmentsOf_eq rest
      rw [segmentsOf_text rfl behind] at cut
      cases cut
      rw [inductionHypothesis behind, Lexeme.text, List.singleton_append,
        widenDots_step (shut_of_segmentsOf shut behind), if_neg plain, List.append_assoc]
      rfl
  | case7 skipping before rest held inductionHypothesis =>
      obtain ⟨next, others, behind⟩ := exists_segmentsOf_eq rest
      rw [segmentsOf_text rfl behind] at cut
      cases cut
      rw [inductionHypothesis behind, Lexeme.text, List.singleton_append,
        widenDots_step (fun _ _ _ dot => by cases dot), if_neg (by decide), List.append_assoc]
      rfl
  | case8 skipping before c rest held ofBlank ofPlain =>
      obtain ⟨next, others, behind⟩ := exists_segmentsOf_eq rest
      rw [segmentsOf_text rfl behind] at cut
      cases cut
      have noBlank : ¬isBlank '\\' = true := by decide
      -- the backslash in front keeps a dot from leaving words open
      have passed : widenDots limits (c :: next) false [] (some '\\') = _ :=
        widenDots_step fun _ _ _ _ => by simp
      rw [Lexeme.text, List.cons_append, List.singleton_append,
        widenDots_step (fun _ _ _ dot => by cases dot), if_neg noBlank, passed, List.append_assoc]
      cases isBlank c with
      | true => exact congrArg (held.reverse ++ '\\' :: ·) (ofBlank behind)
      | false => exact congrArg (held.reverse ++ '\\' :: c :: ·) (ofPlain behind)
  | case9 skipping before text spaced rest held inductionHypothesis =>
      exact widenDots_class rfl cut inductionHypothesis
  | case10 skipping before text rest held inductionHypothesis =>
      exact widenDots_class rfl cut inductionHypothesis

theorem widenWords_eq (pattern : List Char) :
    widenWords limits pattern = widenUnits limits (lexemes pattern) false [] none := by
  obtain ⟨front, more, cut⟩ := exists_segmentsOf_eq (lexemes pattern)
  have spelled : widenWords limits pattern =
      (segments pattern).flatMap (Segment.widened limits) := rfl
  rw [spelled, widenUnits_eq cut, segments, cut, List.flatMap_cons]
  rfl

end NoticeScan.Pattern
