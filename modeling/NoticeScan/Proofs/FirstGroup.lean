import NoticeScan.Proofs.Brackets
import NoticeScan.Proofs.Built
import NoticeScan.Proofs.Composite
import NoticeScan.Proofs.Lexemes

/-!
# The first group of a composite expression

What stands in front of the first group of a composite expression is written by the builder alone:
the patterns come later, and the bounds that it writes have no part in brackets, whether they make
up a repeat or not. So a composite expression that compiles has a group, whatever its patterns and
its bounds are.
-/

namespace NoticeScan.Regex

open NoticeScan.Pattern

namespace Reading

/-- Groups that have been met stay met. -/
theorem Reaches.widths_le
    {reading last : Reading}
    (reaches : Reaches reading last) :
    reading.groups.widths.size ≤ last.groups.widths.size := by
  induction reaches with
  | refl => exact Nat.le_refl _
  | step _ stepped _ inductionHypothesis =>
      obtain ⟨input, _, action, behind, _, acts⟩ := step_obeys stepped
      exact acts.grows.1.trans inductionHypothesis

end Reading

/-! ## Texts that a reading comes to -/

section Texts

/-- A sign that has no part in brackets and starts no comment. -/
def isCalmSign (c : Char) : Bool :=
  isPlainSign c && c != '#'

theorem isCalmSign_iff
    {c : Char} :
    isCalmSign c = true ↔ isPlainSign c = true ∧ c ≠ '#' := by
  rw [isCalmSign, Bool.and_eq_true, bne_iff_ne]

variable {last : Reading} {c : Char} {rest post : List Char} {flags : Flags}
  {input behind : Input} {action : Action}

/-- A text that starts with a bracket. -/
def Bracketed (text : List Char) : Prop :=
  ∃ c rest, text = c :: rest ∧ isInner c = false

/-- Reading comes to a text before everything has been read. -/
def ComesTo (last : Reading) (text : List Char) : Prop :=
  ∃ reading : Reading, reading.input.rest = text ∧ 1 ≤ reading.groups.widths.size ∧
    Reading.Reaches reading last

/-- What a sign asks for is done, and reading comes to what is behind. -/
theorem ComesTo.next
    (comes : ComesTo last (c :: rest))
    (stuck : last.Stuck)
    (plain : c ≠ '\\') :
    rest ≠ ['\\'] ∧ ∃ flags pos action behind,
      lex flags (.plain c) ⟨rest, pos⟩ = .ok (action, behind) ∧ ComesTo last behind.rest ∧
        ∀ name, action = .capture name → 2 ≤ last.groups.widths.size := by
  obtain ⟨reading, starts, some, reaches⟩ := comes
  have peeked := Input.peek?_plain starts plain
  cases reaches with
  | refl =>
      rw [Reading.Stuck, peeked] at stuck
      cases stuck
  | @step _ next _ token peekedToo stepped further =>
      rw [peeked] at peekedToo
      cases peekedToo
      obtain ⟨input, dropped, action, behind, asked, acts⟩ := Reading.step_obeys stepped
      have sound : rest ≠ ['\\'] := by
        rintro rfl
        rw [Input.drop, starts] at dropped
        cases dropped
      have one : reading.input.drop (Token.plain c).width = .ok ⟨rest, reading.input.pos + 1⟩ :=
        Input.drop_one starts sound
      rw [one] at dropped
      cases dropped
      refine ⟨sound, reading.flags, _, action, behind, asked, ?_, ?_⟩
      · exact ⟨next, congrArg Input.rest acts.input_eq, some.trans acts.grows.1, further⟩
      · rintro name rfl
        cases acts with
        | capture _ _ entered =>
            have more := widths_of_enterCapture entered
            have kept := further.widths_le
            omega

/-- A calm sign takes no bracket with it. -/
theorem takes_of_lex
    (calm : isCalmSign c = true)
    (asked : lex flags (.plain c) input = .ok (action, behind)) :
    input.Takes behind := by
  obtain ⟨sign, noComment⟩ := isCalmSign_iff.mp calm
  obtain ⟨-, noBracket, noOpening, noClosing⟩ := isPlainSign_iff.mp sign
  by_cases bar : c = '|'
  · subst bar
    cases asked
    exact Input.Takes.refl _
  · rw [lex_plain noClosing bar, lexPlain] at asked
    split at asked
    · cases asked
      exact Input.Takes.refl _
    · rw [if_neg fun comment =>
        noComment (beq_iff_eq.mp (Bool.and_eq_true_iff.mp comment).2)] at asked
      unfold lexSign at asked
      split at asked
      · exact absurd rfl noOpening
      · exact absurd rfl noBracket
      · cases asked
        exact Input.Takes.refl _
      · cases asked
        exact Input.Takes.refl _
      · cases asked
        exact Input.Takes.refl _
      · split at asked
        · exact (within_lexRepeat shut_nil flags c).takes asked
        · cases asked
          exact Input.Takes.refl _

/-- Calm signs are passed up to a bracket, whatever repeats they make up. -/
theorem ComesTo.behind_signs
    (signs : List Char)
    (comes : ComesTo last (signs ++ post))
    (stuck : last.Stuck)
    (each : ∀ sign ∈ signs, isCalmSign sign = true)
    (bracketed : Bracketed post) :
    ComesTo last post := by
  induction count : signs.length using Nat.strong_induction_on generalizing signs with
  | _ count' inductionHypothesis =>
    cases signs with
    | nil => exact comes
    | cons sign more =>
        obtain ⟨calm, others⟩ := List.forall_mem_cons.mp each
        obtain ⟨-, flags, pos, action, behind, asked, further, -⟩ :=
          comes.next stuck (isPlainSign_iff.mp (isCalmSign_iff.mp calm).1).1
        obtain ⟨taken, inner, split⟩ := takes_of_lex calm asked
        -- Only inner characters are taken, so the bracket stays where it is.
        obtain ⟨left, isSuffix, starts⟩ : ∃ left, left <:+ more ∧ behind.rest = left ++ post := by
          rcases List.append_eq_append_iff.mp split with
            ⟨beyond, rfl, remains⟩ | ⟨left, same, remains⟩
          · obtain ⟨c, rest, rfl, bracket⟩ := bracketed
            cases beyond with
            | nil => exact ⟨[], List.nil_suffix, remains.symm⟩
            | cons first later =>
                cases remains
                rw [inner c (List.mem_append_right _ List.mem_cons_self)] at bracket
                cases bracket
          · exact ⟨left, ⟨taken, same.symm⟩, remains⟩
        rw [starts] at further
        refine inductionHypothesis left.length ?_ left further
          (fun one member => others one (isSuffix.subset member)) rfl
        rw [← count]
        exact Nat.lt_succ_of_le isSuffix.length_le

theorem ComesTo.behind_class
    (comes : ComesTo last ('[' :: rest))
    (stuck : last.Stuck)
    (ends : classBehind rest = some post) :
    ComesTo last post := by
  obtain ⟨sound, flags, pos, action, behind, asked, further, -⟩ :=
    comes.next stuck (by decide)
  rw [lex_plain (by decide) (by decide), lexPlain, if_neg (by simp [Reading.isLayout]),
    if_neg (by simp)] at asked
  obtain ⟨⟨negated, members, there⟩, body, done⟩ := bind_eq_ok.mp asked
  cases done
  have sound : Input.Sound ⟨rest, pos⟩ := sound
  have same := classBehind_of_classBody sound body
  rw [ends] at same
  cases same
  exact further

theorem ComesTo.within_group
    {piece : Expr}
    (comes : ComesTo last (group piece ++ rest))
    (stuck : last.Stuck) :
    ComesTo last (piece ++ ')' :: rest) := by
  have opening : "(?:".toList = ['(', '?', ':'] := by decide
  have spelled : group piece ++ rest = '(' :: '?' :: ':' :: (piece ++ ')' :: rest) := by
    delta group
    rw [opening, List.append_assoc, List.append_assoc]
    rfl
  rw [spelled] at comes
  obtain ⟨-, flags, pos, action, behind, asked, further, -⟩ := comes.next stuck (by decide)
  rw [lex_opening] at asked
  have same := (lexOpening_eq (c := ':') (by decide) (ne_backslash_of_append (by simp)) flags
    pos).symm.trans asked
  cases same
  exact further

theorem ComesTo.behind_closing
    (comes : ComesTo last (')' :: rest))
    (stuck : last.Stuck) :
    ComesTo last rest := by
  obtain ⟨-, flags, pos, action, behind, asked, further, -⟩ := comes.next stuck (by decide)
  cases asked
  exact further

/-- A group with a name is one that has been met when everything has been read. -/
theorem ComesTo.two_le_widths
    {name : List Char}
    (comes : ComesTo last ('(' :: '?' :: 'P' :: '<' :: (name ++ '>' :: rest)))
    (stuck : last.Stuck)
    (plain : NamePlain name)
    (isName : Text.isName name = true)
    (sound : rest ≠ ['\\']) :
    2 ≤ last.groups.widths.size := by
  obtain ⟨-, flags, pos, action, behind, asked, -, met⟩ := comes.next stuck (by decide)
  rw [lex_opening, lexOpening_eq (by decide) (by simp)] at asked
  have same := (lexNamed_name plain isName sound (pos + 2)).symm.trans asked
  cases same
  exact met (some name) rfl

theorem isCalmSign_of_mem_bound
    {n : Int}
    {sign : Char}
    (member : sign ∈ bound n) :
    isCalmSign sign = true := by
  rcases sign_or_digit_of_mem_bound member with rfl | digit
  · rfl
  · refine isCalmSign_iff.mpr ⟨isPlainSign_iff.mpr ⟨?_, ?_, ?_, ?_⟩, ?_⟩ <;>
      rintro rfl <;> cases digit

/-- Blanks within some bounds are passed, with calm signs behind them. -/
theorem ComesTo.behind_blanks
    {low high : Int}
    (signs : List Char)
    (comes : ComesTo last (times blank low high ++ (signs ++ post)))
    (stuck : last.Stuck)
    (each : ∀ sign ∈ signs, isCalmSign sign = true)
    (bracketed : Bracketed post) :
    ComesTo last post := by
  have spelled : times blank low high ++ (signs ++ post) =
      '[' :: (blankMembers ++ ']' ::
        ('\x7b' :: bound low ++ ',' :: bound high ++ '\x7d' :: signs ++ post)) := by
    simp [times, blank, anyOf]
  rw [spelled] at comes
  have ends : ∀ text, classBehind (blankMembers ++ ']' :: text) = some text := fun text => rfl
  refine (comes.behind_class stuck (ends _)).behind_signs _ stuck ?_ bracketed
  simp only [List.cons_append, List.append_assoc, List.forall_mem_cons, List.forall_mem_append]
  exact ⟨rfl, fun _ => isCalmSign_of_mem_bound, rfl, fun _ => isCalmSign_of_mem_bound, rfl, each⟩

theorem bracketed_blanks
    (low high : Int)
    (text : List Char) :
    Bracketed (times blank low high ++ text) :=
  ⟨'[', _, rfl, rfl⟩

theorem bracketed_group
    (piece text : List Char) :
    Bracketed (group piece ++ text) := by
  have opening : "(?:".toList = ['(', '?', ':'] := by decide
  delta group
  rw [opening]
  exact ⟨'(', _, rfl, rfl⟩

theorem bracketed_closing
    (text : List Char) :
    Bracketed (')' :: text) :=
  ⟨')', text, rfl, rfl⟩

end Texts

end NoticeScan.Regex

namespace NoticeScan.Scan

open NoticeScan.Regex NoticeScan.Pattern

variable {last : Reading} {parts : Ingredients} {rest : Expr}

/-! ## The first alternative -/

theorem bracketed_capture
    (slot : Slot)
    (number : Nat)
    (piece text : Expr) :
    Bracketed (capture slot number piece ++ text) := by
  rw [capture_eq]
  exact ⟨'(', _, rfl, rfl⟩

theorem two_le_widths_of_capture
    {slot : Slot}
    {number : Nat}
    {piece : Expr}
    (comes : ComesTo last (capture slot number piece ++ rest))
    (stuck : last.Stuck) :
    2 ≤ last.groups.widths.size := by
  obtain ⟨spelled, isName⟩ := spelled_of_namesGroup (namesGroup_groupName slot number)
  rw [capture_eq] at comes
  have opens : ComesTo last ('(' :: '?' :: 'P' :: '<' ::
      (groupName slot number ++ '>' :: (piece ++ ')' :: rest))) := by
    simpa using comes
  exact opens.two_le_widths stuck spelled isName (ne_backslash_of_append (by simp))

/-- A licence under which something is distributed has a group, whatever its bounds are. -/
theorem two_le_widths_of_genericLicense
    (comes : ComesTo last (parts.genericLicense ++ rest))
    (stuck : last.Stuck) :
    2 ≤ last.groups.widths.size := by
  have either : "(?:distributed|provided)".toList = group "distributed|provided".toList := by
    decide
  have determiner : "(?:the|this)".toList = group "the|this".toList := by decide
  have calm : ∀ text : List Char, text.all isCalmSign = true →
      ∀ sign ∈ text, isCalmSign sign = true := fun text => List.all_eq_true.mp
  delta Ingredients.genericLicense Ingredients.blanks1 optional at comes
  rw [either, determiner] at comes
  have inside := comes.within_group stuck
  simp only [List.append_assoc] at inside
  have behindIs := inside.behind_signs _ stuck (calm _ (by decide)) (bracketed_blanks _ _ _)
  have verb := behindIs.behind_blanks [] stuck (calm _ rfl) (bracketed_group _ _)
  have verbEnd := (verb.within_group stuck).behind_signs _ stuck (calm _ (by decide))
    (bracketed_closing _)
  have behindUnder := (verbEnd.behind_closing stuck).behind_blanks _ stuck (calm _ (by decide))
    (bracketed_group _ _)
  have inOption := behindUnder.within_group stuck
  simp only [List.append_assoc] at inOption
  have article := inOption.behind_blanks [] stuck (calm _ rfl) (bracketed_group _ _)
  have articleEnd := (article.within_group stuck).behind_signs _ stuck (calm _ (by decide))
    (bracketed_closing _)
  have question := (articleEnd.behind_closing stuck).behind_closing stuck
  have lastBlanks := question.behind_signs ['?'] stuck (calm _ (by decide))
    (bracketed_blanks _ _ _)
  have captured := lastBlanks.behind_blanks [] stuck (calm _ rfl)
    (bracketed_capture _ _ _ _)
  exact two_le_widths_of_capture captured stuck

/-- A composite expression that compiles has a group. -/
theorem groupCount_of_compile
    {flags : Flags}
    {regex : Regex}
    (compiled : Regex.compile flags parts.composite = .ok regex) :
    1 ≤ regex.groupCount := by
  obtain ⟨last, reaches, stuck, -, count⟩ := reaches_of_compile compiled
  have start : ComesTo last parts.composite :=
    ⟨Reading.start flags parts.composite, rfl, Nat.le_refl _, reaches⟩
  have two : 2 ≤ last.groups.widths.size := by
    rw [Ingredients.composite, Ingredients.alternatives] at start
    cases none : parts.licenses.isEmpty with
    | true =>
        rw [none, if_pos rfl, List.nil_append, List.map_cons, List.map_cons, oneOf_cons] at start
        exact two_le_widths_of_genericLicense (start.within_group stuck) stuck
    | false =>
        rw [none, if_neg Bool.false_ne_true, List.singleton_append, List.map_cons, List.map_cons,
          oneOf_cons] at start
        exact two_le_widths_of_capture (start.within_group stuck) stuck
  omega

end NoticeScan.Scan

namespace NoticeScan.Scanner

/-- Every scanner has a group in its composite expression. -/
theorem one_le_groupCount
    {rules : RuleSet}
    {limits : Pattern.Limits}
    {size threshold : Int}
    {scanner : Scanner}
    (made : build rules limits size threshold = .ok scanner) :
    1 ≤ scanner.composite.groupCount := by
  obtain ⟨-, words, -, expression⟩ := expression_of_build made
  have compiled := (built_of_build made).composite
  rw [expression] at compiled
  exact Scan.groupCount_of_compile compiled

end NoticeScan.Scanner
