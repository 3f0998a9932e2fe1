import NoticeScan.Proofs.Loosening
import NoticeScan.Proofs.Phrases

/-!
# Patterns with free blanks

Blanks are widened where they are written, without a look at what is around them. In a pattern
whose blanks are items of their own, outside negations and other places where less is found when
more could be, what is found with the blanks as they stand is found with the wider ones too.
-/

namespace NoticeScan.Pattern

open NoticeScan.Regex NoticeScan.Text

/-! ## Patterns without open words -/

theorem getLast?_classTail
    {text body behind : List Char}
    {spaced : Bool}
    (closed : classTail text = some (body, spaced, behind)) :
    body.getLast? = some ']' := by
  fun_induction classTail text generalizing body behind spaced with
  | case1 => cases closed
  | case2 rest =>
      cases closed
      rfl
  | case3 c rest inductionHypothesis =>
      obtain ⟨⟨tail, flag, last⟩, found, same⟩ := Option.map_eq_some_iff.mp closed
      cases same
      rw [List.getLast?_cons_cons, List.getLast?_cons, inductionHypothesis found]
      rfl
  | case4 => cases closed
  | case5 c rest _ _ _ inductionHypothesis =>
      obtain ⟨⟨tail, flag, last⟩, found, same⟩ := Option.map_eq_some_iff.mp closed
      cases same
      rw [List.getLast?_cons, inductionHypothesis found]
      rfl

/-- A lexeme that ends in the bracket of a class or in what stands for itself, escaped or not. -/
structure Lexeme.Firm (lexeme : Lexeme) : Prop where
  nonempty : lexeme.text ≠ []
  ends : ∀ c, c ≠ '\\' → c ≠ ']' → lexeme.text.getLast? = some c →
    lexeme = .other c ∨ lexeme = .escape (some c)

theorem firm_other (c : Char) :
    (Lexeme.other c).Firm := by
  refine ⟨List.cons_ne_nil c [], fun d _ _ last => Or.inl ?_⟩
  cases last
  rfl

theorem firm_escape (c : Option Char) :
    (Lexeme.escape c).Firm := by
  cases c with
  | none =>
      refine ⟨List.cons_ne_nil _ _, fun d plain _ last => ?_⟩
      cases last
      exact absurd rfl plain
  | some c =>
      refine ⟨List.cons_ne_nil _ _, fun d _ _ last => Or.inr ?_⟩
      cases last
      rfl

theorem firm_classLexeme (rest : List Char) :
    (classLexeme rest).1.Firm ∨ ∃ text, (classLexeme rest).1 = .openClass text := by
  unfold classLexeme
  split
  · rename_i tail spaced behind found
    refine Or.inl ⟨List.cons_ne_nil _ _, fun c _ inside last => ?_⟩
    rw [Lexeme.text, List.getLast?_append, getLast?_classTail found] at last
    exact absurd (Option.some.inj last).symm inside
  · exact Or.inr ⟨_, rfl⟩

/-- What one step cuts off. -/
theorem lexemesIn_cons
    (steps : Nat)
    (c : Char)
    (rest : List Char) :
    ∃ first behind, lexemesIn (steps + 1) (c :: rest) = first :: lexemesIn steps behind ∧
      first.text ++ behind = c :: rest ∧ behind.length ≤ rest.length ∧
      (first.Firm ∨ ∃ text, first = .openClass text) := by
  by_cases escape : c = '\\'
  · subst escape
    cases rest with
    | nil =>
        refine ⟨.escape none, [], ?_, rfl, Nat.le_refl _, Or.inl (firm_escape none)⟩
        cases steps <;> rfl
    | cons d behind =>
        exact ⟨.escape (some d), behind, rfl, rfl, Nat.le_succ _, Or.inl (firm_escape (some d))⟩
  · by_cases bracket : c = '['
    · subst bracket
      exact ⟨_, _, rfl, classLexeme_append rest, classLexeme_length rest, firm_classLexeme rest⟩
    · refine ⟨.other c, rest, ?_, rfl, Nat.le_refl _, Or.inl (firm_other c)⟩
      exact (if_neg escape).trans (if_neg bracket)

/-- Lexemes are the text that they are cut from. -/
theorem flatMap_lexemes (pattern : List Char) :
    (lexemes pattern).flatMap Lexeme.text = pattern := by
  have general : ∀ steps text, text.length ≤ steps →
      (lexemesIn steps text).flatMap Lexeme.text = text := by
    intro steps
    induction steps with
    | zero =>
        intro text few
        rw [List.eq_nil_of_length_eq_zero (Nat.le_zero.mp few)]
        rfl
    | succ steps inductionHypothesis =>
        intro text few
        cases text with
        | nil => rfl
        | cons c rest =>
            obtain ⟨first, behind, cut, whole, shorter, -⟩ := lexemesIn_cons steps c rest
            have fewer : behind.length ≤ steps :=
              Nat.le_trans shorter (Nat.le_of_succ_le_succ few)
            rw [cut, List.flatMap_cons, inductionHypothesis behind fewer, whole]
  exact general pattern.length pattern (Nat.le_refl _)

theorem openClass_not_mem_of_lexemeFindings
    {position : Nat}
    {units : List Lexeme}
    (fine : lexemeFindings position units = [])
    (text : List Char) :
    .openClass text ∉ units := by
  induction units generalizing position with
  | nil => exact List.not_mem_nil
  | cons lexeme behind inductionHypothesis =>
      rw [lexemeFindings] at fine
      cases problem : problemOf lexeme behind with
      | some problem =>
          rw [problem] at fine
          cases fine
      | none =>
          rw [problem] at fine
          intro member
          rcases List.mem_cons.mp member with rfl | later
          · cases problem
          · exact inductionHypothesis fine later

section Closed

variable {limits : Limits}

/-- What becomes of a segment when words are widened. -/
def Segment.widened (limits : Limits) (segment : Segment) : List Char :=
  if segment.isClass then segment.text else widenDots limits segment.text false [] none

end Closed

/-! ## Where blanks are widened -/

section Blanks

variable {limits : Limits} {run rest text : List Char} {c : Char}

theorem widenBlanks_cons
    (noBlank : isBlank c = false)
    (rest : List Char) :
    widenBlanks limits false (c :: rest) = c :: widenBlanks limits false rest :=
  widenBlanks_solid (List.forall_mem_singleton.mpr noBlank) rest

theorem widenBlanks_true_cons
    (noBlank : isBlank c = false)
    (noMark : c ≠ '?')
    (rest : List Char) :
    widenBlanks limits true (c :: rest) =
      space 1 limits ++ c :: widenBlanks limits false rest := by
  rw [widenBlanks, noBlank, beq_false_of_ne noMark]
  rfl

/-- A sign that is neither a blank nor a question mark separates what is widened. -/
theorem widenBlanks_append
    (noBlank : isBlank c = false)
    (noMark : c ≠ '?')
    (inRun : Bool)
    (text rest : List Char) :
    widenBlanks limits inRun (text ++ c :: rest) =
      widenBlanks limits inRun text ++ c :: widenBlanks limits false rest := by
  induction text generalizing inRun with
  | nil =>
      cases inRun with
      | false => exact widenBlanks_cons noBlank rest
      | true => exact widenBlanks_true_cons noBlank noMark rest
  | cons d more inductionHypothesis =>
      rw [List.cons_append, widenBlanks, widenBlanks]
      split
      · exact inductionHypothesis true
      · split
        · rw [inductionHypothesis false]
          rfl
        · split
          · rw [inductionHypothesis false, List.append_assoc]
          · rw [inductionHypothesis false, List.append_assoc]
            rfl

end Blanks

/-! ## Free blanks -/

/-- What may stand behind a group: nothing, or a repeat that gives rounds back. -/
inductive MayRepeat (flags : Flags) : List Char → Prop where
  | once : MayRepeat flags []
  | times {sign : Char} {bounds : List Char} {low high : Nat} {greed : Greed} :
      AsksRepeat flags sign bounds low high greed → greed ≠ .possessive → low ≤ high →
      Solid (sign :: bounds) → MayRepeat flags (sign :: bounds)

/-- A branch of a pattern whose blanks stand free under the flags in force: it is made of pieces
without blanks that are expressions of their own, of runs of blanks, which may be optional, and of
groups and of conditions on what is ahead, the branches of which have free blanks in turn. -/
inductive FreeBlanks : Flags → List Char → Prop where
  | nil {flags : Flags} : FreeBlanks flags []
  | piece {flags : Flags} {piece rest : List Char} :
      piece ≠ [] → Solid piece → standsAlone flags piece = true → Quiet rest →
      FreeBlanks flags rest → FreeBlanks flags (piece ++ rest)
  | blanks {flags : Flags} {run rest : List Char} :
      run ≠ [] → (∀ c ∈ run, isSpace flags c = true) →
      (∀ c, rest.head? = some c → isBlank c = false) →
      FreeBlanks flags rest → FreeBlanks flags (run ++ rest)
  | optional {flags : Flags} {run rest : List Char} (reluctant : Bool) :
      run ≠ [] → (∀ c ∈ run, isSpace flags c = true) →
      FreeBlanks flags rest → FreeBlanks flags (run ++ '?' :: reluctance reluctant ++ rest)
  | group {flags inner : Flags} {signs times rest : List Char} {opener : Opener}
      {branches : List (List Char)} :
      Opens flags signs opener inner → Solid signs →
      inner.verbose = false → inner.template = false →
      branches ≠ [] → (∀ branch ∈ branches, FreeBlanks inner branch) →
      MayRepeat flags times → FreeBlanks flags rest →
      FreeBlanks flags (signs ++ oneOf branches ++ [')'] ++ times ++ rest)

theorem settled_of_calm
    {text : List Char}
    (calm : Calm text) :
    Settled text := by
  intro post calmPost
  cases text with
  | nil => exact calmPost
  | cons c rest =>
      refine ⟨sound_append calm.1 calmPost.1, fun d first => ?_⟩
      cases first
      exact calm.2 c rfl

/-- An expression does not start with a sign that repeats what is before it. -/
theorem calm_of_standsAlone
    {flags : Flags}
    {piece : List Char}
    (stands : standsAlone flags piece = true) :
    Calm piece := by
  obtain ⟨final, ends, -⟩ := (Option.any_eq_true _ _).mp stands
  have closed := closed_of_ending? ends
  refine ⟨closed.sound, fun c starts => ?_⟩
  obtain ⟨rest, rfl⟩ := List.head?_eq_some_iff.mp starts
  have nothing : ∀ low high, c ≠ '\\' →
      (∀ input, lex flags (.plain c) input = lexBounds low high input) → False := by
    intro low high plain asks
    cases closed.reaches with
    | refl =>
        have atEnd := closed.atEnd
        cases atEnd
    | step peeked stepped _ =>
        rw [Input.peek?_plain rfl plain] at peeked
        cases peeked
        obtain ⟨input, _, action, behind, asked, acts⟩ := Reading.step_obeys stepped
        obtain ⟨greed, _, same⟩ := bind_eq_ok.mp ((asks input).symm.trans asked)
        cases same
        cases acts with
        | repeating _ _ _ _ _ _ _ listed _ => cases listed
  refine ⟨?_, ?_⟩
  · rintro rfl
    exact nothing 0 1 (by decide) fun input => lex_sign (Or.inl rfl) flags input
  · rintro rfl
    refine nothing 1 endless (by decide) fun input => ?_
    unfold lex lexPlain
    simp [Reading.isLayout, lexSign, lexRepeat]

theorem calm_of_isBlank
    {c : Char}
    (blank : isBlank c = true)
    (rest : List Char) :
    Calm (c :: rest) := by
  have other : ∀ sign, isBlank sign = false → c ≠ sign := by
    rintro sign noBlank rfl
    rw [blank] at noBlank
    cases noBlank
  exact calm_cons ⟨other _ rfl, other _ rfl, other _ rfl⟩ rest

theorem FreeBlanks.calm
    {flags : Flags}
    {text : List Char}
    (free : FreeBlanks flags text) :
    Calm text := by
  have ofRun : ∀ {flags : Flags} {run : List Char}, run ≠ [] →
      (∀ c ∈ run, isSpace flags c = true) → ∀ rest, Calm (run ++ rest) := by
    intro flags run some spaces rest
    obtain ⟨c, more, rfl⟩ := List.exists_cons_of_ne_nil some
    exact calm_of_isBlank (isBlank_of_isSpace (spaces c List.mem_cons_self)) (more ++ rest)
  induction free with
  | nil => exact ⟨by simp, fun c none => by cases none⟩
  | piece _ _ stands _ _ inductionHypothesis =>
      exact settled_of_calm (calm_of_standsAlone stands) _ inductionHypothesis
  | blanks some spaces _ _ _ => exact ofRun some spaces _
  | optional reluctant some spaces _ _ =>
      rw [List.append_assoc]
      exact ofRun some spaces _
  | group opens _ _ _ _ _ _ _ _ _ =>
      simp only [List.append_assoc]
      cases opens with
      | plain => exact calm_cons (by decide) _
      | ahead => exact calm_cons (by decide) _
      | flagged => exact calm_cons (by decide) _

/-! ### Reading what is widened -/

/-- A text and a wider one are read as entries, the second of which have all paths of the first. -/
def Widens (flags : Flags) (bound : Nat) (text wider : List Char) : Prop :=
  ∃ entries more, (∀ deep names, Adds deep flags names names text entries) ∧
    (∀ deep names, Adds deep flags names names wider more) ∧
    Loosens flags bound (entries.flatMap Entry.items) (more.flatMap Entry.items)

/-- The same in front of every calm text. -/
def Expands (flags : Flags) (bound : Nat) (text wider : List Char) : Prop :=
  ∃ entries more, Grows flags text entries ∧ Grows flags wider more ∧
    Loosens flags bound (entries.flatMap Entry.items) (more.flatMap Entry.items)

section Reading

variable {flags inner : Flags} {bound : Nat} {first second firstWider secondWider : List Char}

theorem Widens.append
    (one : Widens flags bound first firstWider)
    (other : Widens flags bound second secondWider)
    (mild : Mild second)
    (mildWider : Mild secondWider) :
    Widens flags bound (first ++ second) (firstWider ++ secondWider) := by
  obtain ⟨entries, wider, adds, addsWider, loosens⟩ := one
  obtain ⟨more, moreWider, addsMore, addsMoreWider, loosensMore⟩ := other
  refine ⟨entries ++ more, wider ++ moreWider,
    fun deep names => (adds deep names).append (addsMore deep names) mild,
    fun deep names => (addsWider deep names).append (addsMoreWider deep names) mildWider, ?_⟩
  rw [List.flatMap_append, List.flatMap_append]
  exact loosens.append loosensMore

theorem Expands.append
    (one : Expands flags bound first firstWider)
    (other : Widens flags bound second secondWider)
    (calm : Calm second)
    (calmWider : Calm secondWider) :
    Widens flags bound (first ++ second) (firstWider ++ secondWider) := by
  obtain ⟨entries, wider, grows, growsWider, loosens⟩ := one
  obtain ⟨more, moreWider, addsMore, addsMoreWider, loosensMore⟩ := other
  refine ⟨entries ++ more, wider ++ moreWider,
    fun deep names => grows.adds_append (addsMore deep names) (settled_of_calm calm),
    fun deep names => growsWider.adds_append (addsMoreWider deep names)
      (settled_of_calm calmWider), ?_⟩
  rw [List.flatMap_append, List.flatMap_append]
  exact loosens.append loosensMore

end Reading

/-! ### Runs of blanks -/

section Runs

variable {flags : Flags} {limits : Limits} {run : List Char}

end Runs

/-! ### Groups -/

section Groups

variable {flags inner : Flags} {bound : Nat} {branches : List (List Char)}
  {wide : List Char → List Char}

end Groups

/-! ## Widening keeps what is found -/

section Free

variable {limits : Limits}

end Free

end NoticeScan.Pattern
