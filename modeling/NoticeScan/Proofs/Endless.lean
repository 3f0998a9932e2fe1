import NoticeScan.Proofs.Classes

/-!
# Repeats without an upper bound

A dot with a star or a plus leaves words open. Open words at the edges of a pattern are dropped
from its inline form, and those between are replaced by a bounded number of bounded words. So no
repeat without an upper bound is left over, if a pattern has no other ones. There are two gaps: the
character before a dot is taken for the backslash that escapes the dot even if it is escaped
itself, and a backslash in front of a blank takes the bracket off what is put in for the blank.
-/

namespace NoticeScan.Pattern

open NoticeScan.Regex NoticeScan.Text

/-! ## Repeats as they are written -/

/-- A repeat without an upper bound. -/
inductive Endless where
  /-- A dot with a star or a plus. -/
  | openWord
  | other
  deriving Repr, DecidableEq

/-- What stands before a lexeme, as far as it matters for repeats. -/
inductive Before where
  /-- Nothing that may be repeated: the start, or the sign that tells how a repeat is tried. -/
  | nothing
  /-- The parenthesis that opens a group. -/
  | opening
  | item
  | dot
  | repeated
  /-- The brace that may open the bounds of a repeat. -/
  | brace
  /-- A lower bound. -/
  | low
  /-- The comma between two bounds. -/
  | comma
  /-- An upper bound. -/
  | high
  deriving Repr, DecidableEq

/-- The repeat without an upper bound that ends with a character, if there is one, and what
stands before the next lexeme. -/
def Before.next (before : Before) (c : Char) : Option Endless × Before :=
  if c = '*' ∨ c = '+' then
    match before with
    | .nothing | .repeated => (none, .nothing)
    | .dot => (some .openWord, .repeated)
    | _ => (some .other, .repeated)
  else if c = '?' then
    match before with
    | .nothing | .repeated => (none, .nothing)
    | .opening => (none, .item)
    | _ => (none, .repeated)
  else if c = '\x7b' then
    (none, .brace)
  else if c = '\x7d' then
    match before with
    | .comma => (some .other, .repeated)
    | .low | .high => (none, .repeated)
    | _ => (none, .item)
  else if c = ',' then
    match before with
    | .brace | .low => (none, .comma)
    | _ => (none, .item)
  else if isDecimal c then
    match before with
    | .brace | .low => (none, .low)
    | .comma | .high => (none, .high)
    | _ => (none, .item)
  else
    (none, if c = '(' then .opening else if c = '.' then .dot else .item)

/-- The same for any lexeme. -/
def Before.read (before : Before) : Lexeme → Option Endless × Before
  | .other c => before.next c
  | _ => (none, .item)

/-- The repeats without an upper bound among lexemes. -/
def endlessRepeats : Before → List Lexeme → List Endless
  | _, [] => []
  | before, unit :: rest =>
      (before.read unit).1.toList ++ endlessRepeats (before.read unit).2 rest

/-- What stands behind lexemes. -/
def Before.after : Before → List Lexeme → Before
  | before, [] => before
  | before, unit :: rest => after (before.read unit).2 rest

theorem endlessRepeats_append
    (before : Before)
    (units rest : List Lexeme) :
    endlessRepeats before (units ++ rest) =
      endlessRepeats before units ++ endlessRepeats (before.after units) rest := by
  induction units generalizing before with
  | nil => rfl
  | cons unit more inductionHypothesis =>
      rw [List.cons_append, endlessRepeats, inductionHypothesis, endlessRepeats, List.append_assoc]
      rfl

theorem after_append
    (before : Before)
    (units rest : List Lexeme) :
    before.after (units ++ rest) = (before.after units).after rest := by
  induction units generalizing before with
  | nil => rfl
  | cons unit more inductionHypothesis => exact inductionHypothesis _

/-- Where less may be repeated than somewhere else. -/
inductive Before.Under : Before → Before → Prop
  | same (before : Before) : Under before before
  | nothingRepeated : Under .nothing .repeated
  | nothingItem : Under .nothing .item
  | repeatedItem : Under .repeated .item

theorem Before.Under.read
    {before other : Before}
    (under : Under before other)
    (unit : Lexeme) :
    Under (before.read unit).2 (other.read unit).2 ∧
      ((before.read unit).1 = none ∨ (before.read unit).1 = (other.read unit).1) := by
  cases under with
  | same => exact ⟨.same _, Or.inr rfl⟩
  | _ =>
      cases unit with
      | other c =>
          unfold Before.read Before.next
          dsimp only
          split_ifs <;> exact ⟨by constructor, by simp⟩
      | _ => exact ⟨.same _, Or.inl rfl⟩

theorem Before.Under.endlessRepeats_subset
    {before other : Before}
    (under : Under before other)
    (units : List Lexeme) :
    endlessRepeats before units ⊆ endlessRepeats other units := by
  induction units generalizing before other with
  | nil => exact List.Subset.refl _
  | cons unit rest inductionHypothesis =>
      obtain ⟨later, here⟩ := under.read unit
      have first : (before.read unit).1.toList ⊆ (other.read unit).1.toList := by
        rcases here with none | same
        · rw [none]
          exact List.nil_subset _
        · rw [same]
          exact List.Subset.refl _
      exact List.append_subset.mpr
        ⟨fun _ member => List.mem_append_left _ (first member),
          fun _ member => List.mem_append_right _ (inductionHypothesis later member)⟩

/-! ## Texts without such repeats -/

/-- A text that can stand in front of any other, has no repeat without an upper bound, and has
one thing behind it that was another before it. -/
structure Passes (before : Before) (text : List Char) (after : Before) : Prop where
  whole : Whole text
  bounded : endlessRepeats before (lexemes text) = []
  ends : before.after (lexemes text) = after

theorem passes_nil (before : Before) :
    Passes before [] before :=
  ⟨whole_nil, rfl, rfl⟩

theorem Passes.append
    {before middle after : Before}
    {text more : List Char}
    (passes : Passes before text middle)
    (passesMore : Passes middle more after) :
    Passes before (text ++ more) after := by
  refine ⟨passes.whole.append passesMore.whole, ?_, ?_⟩
  · rw [passes.whole, endlessRepeats_append, passes.bounded, passes.ends, passesMore.bounded]
    rfl
  · rw [passes.whole, after_append, passes.ends, passesMore.ends]

theorem Passes.endless_append
    {before middle : Before}
    {text : List Char}
    (passes : Passes before text middle)
    (rest : List Char) :
    endlessRepeats before (lexemes (text ++ rest)) = endlessRepeats middle (lexemes rest) := by
  rw [passes.whole, endlessRepeats_append, passes.bounded, passes.ends]
  rfl

theorem passes_simple
    {before after : Before}
    {c : Char}
    (simple : isSimple c = true)
    (next : before.next c = (none, after)) :
    Passes before [c] after := by
  have alone : lexemes [c] = [.other c] := lexemes_simple simple []
  refine ⟨whole_simples (List.forall_mem_singleton.mpr simple), ?_, ?_⟩
  · rw [alone, endlessRepeats, Before.read, next]
    rfl
  · rw [alone, Before.after, Before.read, next]
    rfl

theorem passes_escape
    (before : Before)
    (c : Char) :
    Passes before ['\\', c] .item :=
  ⟨whole_escape c, rfl, rfl⟩

theorem passes_class
    {text : List Char}
    {spaced : Bool}
    (isClass : IsClass text spaced)
    (before : Before) :
    Passes before text .item := by
  refine ⟨isClass.whole, ?_, ?_⟩
  · rw [isClass.lexemes_eq]
    rfl
  · rw [isClass.lexemes_eq]
    rfl

theorem next_of_isBlank
    {c : Char}
    (blank : isBlank c = true)
    (before : Before) :
    before.next c = (none, .item) := by
  have apart : ∀ d, isBlank d = false → c ≠ d := by
    rintro d plain rfl
    rw [plain] at blank
    cases blank
  have noDigit : isDecimal c = false := by
    by_contra digit
    have solid := isBlank_of_isPlainWord
      (Bool.or_eq_true_iff.mpr (Or.inr (Bool.eq_true_of_not_eq_false digit)))
    rw [solid] at blank
    cases blank
  unfold Before.next
  rw [if_neg (not_or.mpr ⟨apart _ rfl, apart _ rfl⟩), if_neg (apart _ rfl), if_neg (apart _ rfl),
    if_neg (apart _ rfl), if_neg (apart _ rfl), noDigit, if_neg Bool.false_ne_true,
    if_neg (apart _ rfl), if_neg (apart _ rfl)]

theorem passes_blanks
    {held : List Char}
    (blank : ∀ c ∈ held, isBlank c = true)
    (before : Before) :
    Passes before held (if held = [] then before else .item) := by
  induction held generalizing before with
  | nil => exact passes_nil before
  | cons c rest inductionHypothesis =>
      obtain ⟨here, later⟩ := List.forall_mem_cons.mp blank
      have first := passes_simple (isSimple_of_isBlank here) (next_of_isBlank here before)
      have others := inductionHypothesis later .item
      rw [if_neg (List.cons_ne_nil c rest)]
      rw [ite_self] at others
      exact first.append others

/-! ### Bounded repeats -/

theorem next_digit
    {c : Char}
    (digit : isDecimal c = true)
    (before : Before) :
    before.next c = match before with
      | .brace | .low => (none, .low)
      | .comma | .high => (none, .high)
      | _ => (none, .item) := by
  have apart : ∀ d, isDecimal d = false → c ≠ d := by
    rintro d noDigit rfl
    rw [noDigit] at digit
    cases digit
  unfold Before.next
  rw [if_neg (not_or.mpr ⟨apart _ rfl, apart _ rfl⟩), if_neg (apart _ rfl), if_neg (apart _ rfl),
    if_neg (apart _ rfl), if_neg (apart _ rfl), if_pos digit]

theorem passes_digits
    {digits : List Char}
    (decimal : ∀ c ∈ digits, isDecimal c = true)
    {before : Before}
    (steady : ∀ {c}, isDecimal c = true → before.next c = (none, before)) :
    Passes before digits before := by
  induction digits with
  | nil => exact passes_nil before
  | cons c rest inductionHypothesis =>
      obtain ⟨here, later⟩ := List.forall_mem_cons.mp decimal
      have simple : isSimple c = true := by
        refine isSimple_iff.mpr ⟨?_, ?_⟩ <;> rintro rfl <;> cases here
      exact (passes_simple simple (steady here)).append (inductionHypothesis later)

/-- A bound is read where digits lead to the state behind it. -/
theorem passes_bound
    {n : Int}
    (natural : 0 ≤ n)
    {before after : Before}
    (starts : ∀ {c}, isDecimal c = true → before.next c = (none, after))
    (steady : ∀ {c}, isDecimal c = true → after.next c = (none, after)) :
    Passes before (bound n) after := by
  obtain ⟨m, rfl⟩ := Int.eq_ofNat_of_zero_le natural
  have decimal : ∀ c ∈ bound m, isDecimal c = true := fun c member => isDecimal_of_mem_bound member
  obtain ⟨c, rest, spelled⟩ := List.exists_cons_of_ne_nil (bound_ne_nil m)
  rw [spelled] at decimal ⊢
  obtain ⟨here, later⟩ := List.forall_mem_cons.mp decimal
  have simple : isSimple c = true := isSimple_of_mem_bound (spelled ▸ List.mem_cons_self)
  exact (passes_simple simple (starts here)).append (passes_digits later steady)

theorem Passes.times
    {before middle : Before}
    {text : List Char}
    {low high : Int}
    (passes : Passes before text middle)
    (naturalLow : 0 ≤ low)
    (naturalHigh : 0 ≤ high) :
    Passes before (Pattern.times text low high) .repeated := by
  have opened : Passes middle ['\x7b'] .brace := passes_simple rfl (by cases middle <;> rfl)
  have lower : Passes .brace (bound low) .low :=
    passes_bound naturalLow (fun digit => next_digit digit _) fun digit => next_digit digit _
  have separated : Passes .low [','] .comma := passes_simple rfl rfl
  have upper : Passes .comma (bound high) .high :=
    passes_bound naturalHigh (fun digit => next_digit digit _) fun digit => next_digit digit _
  have closed : Passes .high ['\x7d'] .repeated := passes_simple rfl rfl
  have spelled : Pattern.times text low high =
      text ++ (['\x7b'] ++ (bound low ++ ([','] ++ (bound high ++ ['\x7d'])))) := by
    simp [Pattern.times]
  rw [spelled]
  exact passes.append (opened.append (lower.append (separated.append (upper.append closed))))

variable {limits : Limits}

theorem passes_space
    (sound : limits.Sound)
    {low : Int}
    (natural : 0 ≤ low)
    (before : Before) :
    Passes before (Pattern.space low limits) .repeated := by
  have members : Passes before blank .item :=
    ⟨whole_of_closed (by decide), rfl, rfl⟩
  have room : 0 ≤ limits.spaceLength := by
    have := sound.spaceLength.1
    omega
  exact members.times natural room

theorem passes_wildcard
    (sound : limits.Sound)
    {low : Int}
    (natural : 0 ≤ low)
    (before : Before) :
    Passes before (wildcard low limits) .repeated := by
  have roomForName : 0 ≤ limits.nameLength := by
    have := sound.nameLength.1
    omega
  have roomForWords : 0 ≤ limits.nameRepetition := by
    have := sound.nameRepetition.1
    omega
  have opened : Passes before "(?:".toList .item :=
    ⟨whole_of_closed (by decide), by cases before <;> rfl, by cases before <;> rfl⟩
  have letter : Passes .repeated wordChar .item := ⟨whole_of_closed (by decide), rfl, rfl⟩
  have letters : Passes .repeated (times wordChar 1 limits.nameLength) .repeated :=
    letter.times (by decide) roomForName
  have closed : Passes .repeated [')'] .item := passes_simple rfl rfl
  have one : (0 : Int) ≤ 1 := by decide
  have word := opened.append ((passes_space sound one .item).append letters)
  have words := (word.append closed).times natural roomForWords
  exact words.append (passes_space sound (Int.le_refl 0) .repeated)

/-! ## Texts that stay bounded -/

/-- A lexeme in which no blank is hidden: not behind a backslash, and not in a class. -/
def Lexeme.Frank (unit : Lexeme) : Prop :=
  (∃ c, unit = .other c) ∨ Solid unit.text

instance : DecidablePred Lexeme.Frank
  | .other c => isTrue (Or.inl ⟨c, rfl⟩)
  | .escape c =>
      decidable_of_iff (Solid (Lexeme.escape c).text)
        ⟨Or.inr, fun frank => frank.elim (fun ⟨_, same⟩ => nomatch same) id⟩
  | .charClass text _ =>
      decidable_of_iff (Solid text)
        ⟨Or.inr, fun frank => frank.elim (fun ⟨_, same⟩ => nomatch same) id⟩
  | .openClass text =>
      decidable_of_iff (Solid text)
        ⟨Or.inr, fun frank => frank.elim (fun ⟨_, same⟩ => nomatch same) id⟩

theorem Lexeme.Frank.solid
    {unit : Lexeme}
    (frank : unit.Frank)
    (apart : ∀ c, unit ≠ .other c) :
    Solid unit.text := by
  rcases frank with ⟨c, same⟩ | solid
  · exact absurd same (apart c)
  · exact solid

/-- A text without repeats that have no upper bound, in which no blank is hidden. -/
structure Tamed (before : Before) (text : List Char) : Prop where
  bounded : endlessRepeats before (lexemes text) = []
  frank : ∀ unit ∈ lexemes text, unit.Frank

theorem frank_of_solid
    {text : List Char}
    (solid : Solid text) :
    ∀ unit ∈ lexemes text, unit.Frank := by
  intro unit member
  refine Or.inr fun c among => solid c ?_
  rw [← flatMap_lexemes text]
  exact List.mem_flatMap.mpr ⟨unit, member, among⟩

theorem frank_simples
    {text : List Char}
    (simple : ∀ c ∈ text, isSimple c = true) :
    ∀ unit ∈ lexemes text, unit.Frank := by
  intro unit member
  have cut := lexemes_simples simple []
  rw [List.append_nil, lexemes_nil, List.append_nil] at cut
  rw [cut] at member
  obtain ⟨c, -, rfl⟩ := List.mem_map.mp member
  exact Or.inl ⟨c, rfl⟩

theorem Tamed.behind
    {before middle : Before}
    {front back : List Char}
    (tamed : Tamed middle back)
    (passes : Passes before front middle)
    (frank : ∀ unit ∈ lexemes front, unit.Frank) :
    Tamed before (front ++ back) := by
  refine ⟨(passes.endless_append back).trans tamed.bounded, ?_⟩
  rw [passes.whole]
  exact List.forall_mem_append.mpr ⟨frank, tamed.frank⟩

/-- Whether words are left open by the first two lexemes. -/
def startsOpen : List Lexeme → Bool
  | .other '.' :: .other c :: _ => c == '*' || c == '+'
  | _ => false

/-- Whether words are left open right behind a backslash that is escaped. -/
def opensBehindBackslash : List Lexeme → Bool
  | [] => false
  | unit :: rest => (unit == .escape (some '\\') && startsOpen rest) || opensBehindBackslash rest

theorem opensBehindBackslash_tail
    {unit : Lexeme}
    {rest : List Lexeme}
    (unescaped : opensBehindBackslash (unit :: rest) = false) :
    opensBehindBackslash rest = false := by
  rw [opensBehindBackslash, Bool.or_eq_false_iff] at unescaped
  exact unescaped.2

theorem passes_held
    {held : List Char}
    (blank : ∀ c ∈ held, isBlank c = true)
    (before : Before) :
    Passes before held.reverse (if held = [] then before else .item) := by
  have reversed : ∀ c ∈ held.reverse, isBlank c = true :=
    fun c member => blank c (List.mem_reverse.mp member)
  simpa using passes_blanks reversed before

theorem simple_held
    {held : List Char}
    (blank : ∀ c ∈ held, isBlank c = true) :
    ∀ c ∈ held.reverse, isSimple c = true :=
  fun c member => isSimple_of_isBlank (blank c (List.mem_reverse.mp member))

theorem frank_held
    {held : List Char}
    (blank : ∀ c ∈ held, isBlank c = true) :
    ∀ unit ∈ lexemes held.reverse, unit.Frank :=
  frank_simples (simple_held blank)

/-- What is known where open words are replaced: `old` stands before the lexemes in the pattern,
`new` before them in what has been put out, without the blanks that are held back. -/
structure Abreast (old new : Before) (units : List Lexeme) (skipping : Bool) (held : List Char)
    (before : Option Char) : Prop where
  blank : ∀ c ∈ held, isBlank c = true
  skips : skipping = true → held = [] ∧ new = .repeated
  under : new.Under old ∨ held ≠ []
  behindBlank : held ≠ [] → old = .item
  shut : old = .dot → ∀ c rest, units = .other c :: rest → c ≠ '*' ∧ c ≠ '+'
  escaped : held = [] → before = some '\\' → startsOpen units = false
  others : .other ∉ endlessRepeats old units

theorem next_openWord
    {before : Before}
    {c : Char}
    (opens : (before.next c).1 = some .openWord) :
    before = .dot ∧ (c = '*' ∨ c = '+') := by
  unfold Before.next at opens
  split_ifs at opens with sign
  · cases before <;> cases opens
    exact ⟨rfl, sign⟩
  all_goals cases before <;> cases opens

theorem next_dot
    {before : Before}
    {c : Char}
    (dot : (before.next c).2 = .dot) :
    c = '.' := by
  unfold Before.next at dot
  split_ifs at dot
  any_goals assumption
  all_goals cases before <;> cases dot

namespace Abreast

variable {old new : Before} {rest : List Lexeme} {skipping : Bool} {held : List Char}
  {before : Option Char} {c : Char}

theorem others_tail
    {unit : Lexeme}
    (abreast : Abreast old new (unit :: rest) skipping held before) :
    (old.read unit).1 ≠ some .other ∧ .other ∉ endlessRepeats (old.read unit).2 rest := by
  have others := abreast.others
  rw [endlessRepeats, List.mem_append, not_or, Option.mem_toList] at others
  exact others

/-- A character that ends no repeat is put out behind the blanks that were held back. -/
theorem passes_sign
    (abreast : Abreast old new (.other c :: rest) skipping held before)
    (simple : isSimple c = true) :
    ∃ next, Passes new (held.reverse ++ [c]) next ∧ next.Under (old.next c).2 := by
  have quiet : (old.next c).1 = none := by
    cases ends : (old.next c).1 with
    | none => rfl
    | some kind =>
        cases kind with
        | other => exact absurd ends abreast.others_tail.1
        | openWord =>
            obtain ⟨dot, sign⟩ := next_openWord ends
            obtain ⟨noStar, noPlus⟩ := abreast.shut dot c rest rfl
            exact absurd sign (not_or.mpr ⟨noStar, noPlus⟩)
  have blanks := passes_held abreast.blank new
  by_cases none : held = []
  · subst none
    obtain ⟨later, here⟩ := (abreast.under.resolve_right fun some => some rfl).read (.other c)
    have noRepeat : (new.next c).1 = none := here.elim id fun same => same.trans quiet
    exact ⟨_, passes_simple simple (Prod.ext noRepeat rfl), later⟩
  · rw [if_neg none] at blanks
    have behindBlank := abreast.behindBlank none
    subst behindBlank
    exact ⟨_, blanks.append (passes_simple simple (Prod.ext quiet rfl)), .same _⟩

theorem frank_sign
    (abreast : Abreast old new (.other c :: rest) skipping held before)
    (simple : isSimple c = true) :
    ∀ unit ∈ lexemes (held.reverse ++ [c]), unit.Frank :=
  frank_simples (List.forall_mem_append.mpr
    ⟨simple_held abreast.blank, List.forall_mem_singleton.mpr simple⟩)

/-- What is known behind a lexeme that has been put out. -/
theorem behind
    {next later : Before}
    {c : Option Char}
    (under : next.Under later)
    (shut : later = .dot → ∀ c more, rest = .other c :: more → c ≠ '*' ∧ c ≠ '+')
    (escaped : c = some '\\' → startsOpen rest = false)
    (others : .other ∉ endlessRepeats later rest) :
    Abreast later next rest false [] c where
  blank := fun _ none => absurd none List.not_mem_nil
  skips := fun same => by cases same
  under := Or.inl under
  behindBlank := fun some => absurd rfl some
  shut := shut
  escaped := fun _ => escaped
  others := others

end Abreast

/-- Where open words are replaced, no repeat without an upper bound is left over, if there are no
others. -/
theorem tamed_widenUnits
    (sound : limits.Sound)
    {units : List Lexeme}
    {old new : Before}
    {skipping : Bool}
    {held : List Char}
    {before : Option Char}
    (written : Written units)
    (frank : ∀ unit ∈ units, unit.Frank)
    (unescaped : opensBehindBackslash units = false)
    (abreast : Abreast old new units skipping held before) :
    Tamed new (widenUnits limits units skipping held before) := by
  fun_induction widenUnits limits units skipping held before generalizing old new with
  | case1 skipping held before =>
      have passes := passes_held abreast.blank new
      exact ⟨passes.bounded, frank_held abreast.blank⟩
  | case2 skipping c rest held before opens inductionHypothesis =>
      cases written with
      | other _ behind =>
          cases behind with
          | other simple behind =>
              have sign : c = '*' ∨ c = '+' := by
                simpa using (Bool.and_eq_true_iff.mp opens).1
              have replaced : old.next '.' = (none, .dot) ∧
                  Before.dot.next c = (some .openWord, .repeated) :=
                ⟨by cases old <;> rfl, if_pos sign⟩
              have others := abreast.others
              rw [endlessRepeats, endlessRepeats, Before.read, replaced.1, Before.read, replaced.2]
                at others
              have natural : (0 : Int) ≤ if c == '+' then 1 else 0 := by split <;> decide
              have next : Abreast .repeated .repeated rest true [] (some c) :=
                { blank := fun _ none => absurd none List.not_mem_nil
                  skips := fun _ => ⟨rfl, rfl⟩
                  under := Or.inl (.same _)
                  behindBlank := fun some => absurd rfl some
                  shut := fun same => by cases same
                  escaped := fun _ same => by
                    cases same
                    cases simple
                  others := fun member => others (by simp [member]) }
              have frankRest : ∀ unit ∈ rest, unit.Frank := fun unit member =>
                frank unit (List.mem_cons_of_mem _ (List.mem_cons_of_mem _ member))
              exact (inductionHypothesis behind frankRest
                (opensBehindBackslash_tail (opensBehindBackslash_tail unescaped)) next).behind
                (passes_wildcard sound natural new) (frank_of_solid (solid_wildcard _))
  | case3 skipping c rest held before shut inductionHypothesis =>
      cases written with
      | other simple behind =>
          have noSign : c ≠ '*' ∧ c ≠ '+' := by
            by_contra sign
            have sign : (c == '*' || c == '+') = true := by
              rw [Bool.or_eq_true, beq_iff_eq, beq_iff_eq]
              by_contra noSign
              exact sign (not_or.mp noSign)
            rw [sign, Bool.true_and, Bool.or_eq_true, not_or] at shut
            have none : held = [] := by simpa using shut.1
            have escape : before = some '\\' := by simpa using shut.2
            have closed := abreast.escaped none escape
            rw [startsOpen, sign] at closed
            cases closed
          have dot : old.next '.' = (none, .dot) := by cases old <;> rfl
          obtain ⟨next, passes, under⟩ := abreast.passes_sign simple
          have others := abreast.others_tail.2
          rw [Before.read, dot] at others
          rw [dot] at under
          have goesOn : Abreast .dot next (.other c :: rest) false [] (some '.') :=
            Abreast.behind under
              (fun _ d more same => by
                cases same
                exact noSign)
              (fun same => by cases same) others
          rw [List.append_cons]
          exact (inductionHypothesis behind (List.forall_mem_cons.mp frank).2
            (opensBehindBackslash_tail unescaped) goesOn).behind passes
            (abreast.frank_sign simple)
  | case4 before c rest held shut blank inductionHypothesis =>
      cases written with
      | other simple behind =>
          have others := abreast.others_tail.2
          obtain ⟨none, isRepeated⟩ := abreast.skips rfl
          rw [Before.read, next_of_isBlank blank] at others
          have goesOn : Abreast .item new rest true [] (some c) :=
            { blank := fun _ none => absurd none List.not_mem_nil
              skips := fun _ => ⟨rfl, isRepeated⟩
              under := Or.inl (isRepeated ▸ .repeatedItem)
              behindBlank := fun some => absurd rfl some
              shut := fun same => by cases same
              escaped := fun _ same => by
                cases same
                cases simple
              others := others }
          exact inductionHypothesis behind (List.forall_mem_cons.mp frank).2
            (opensBehindBackslash_tail unescaped) goesOn
  | case5 before c rest skipping held shut blank passing inductionHypothesis =>
      cases written with
      | other simple behind =>
          have others := abreast.others_tail.2
          rw [Before.read, next_of_isBlank blank] at others
          have goesOn : Abreast .item new rest false (c :: held) (some c) :=
            { blank := List.forall_mem_cons.mpr ⟨blank, abreast.blank⟩
              skips := fun same => by cases same
              under := Or.inr (List.cons_ne_nil c held)
              behindBlank := fun _ => rfl
              shut := fun same => by cases same
              escaped := fun none => absurd none (List.cons_ne_nil c held)
              others := others }
          exact inductionHypothesis behind (List.forall_mem_cons.mp frank).2
            (opensBehindBackslash_tail unescaped) goesOn
  | case6 before c rest skipping held shut plain inductionHypothesis =>
      cases written with
      | other simple behind =>
          obtain ⟨next, passes, under⟩ := abreast.passes_sign simple
          have goesOn : Abreast _ next rest false [] (some c) :=
            Abreast.behind under
              (fun isDot d more same => (shut d more same (next_dot isDot)).elim)
              (fun same => by
                cases same
                cases simple)
              abreast.others_tail.2
          rw [List.append_cons]
          exact (inductionHypothesis behind (List.forall_mem_cons.mp frank).2
            (opensBehindBackslash_tail unescaped) goesOn).behind passes
            (abreast.frank_sign simple)
  | case7 skipping before rest held inductionHypothesis =>
      cases written with
      | lone =>
          rw [widenUnits, List.reverse_nil]
          exact Tamed.behind ⟨rfl, frank_of_solid (by decide)⟩ (passes_held abreast.blank new)
            (frank_held abreast.blank)
  | case8 skipping before c rest held ofBlank ofPlain =>
      cases written with
      | escape _ behind =>
          obtain ⟨here, later⟩ := List.forall_mem_cons.mp frank
          have solid : Solid ['\\', c] := here.solid fun _ same => by cases same
          have noBlank : isBlank c = false := (List.forall_mem_cons.mp solid).2 c List.mem_cons_self
          have closed : c = '\\' → startsOpen rest = false := by
            rintro rfl
            rw [opensBehindBackslash, Bool.or_eq_false_iff] at unescaped
            exact unescaped.1
          have goesOn : Abreast .item .item rest false [] (some c) :=
            Abreast.behind (.same _) (fun same => by cases same)
              (fun same => closed (Option.some.inj same)) abreast.others_tail.2
          rw [noBlank, if_neg Bool.false_ne_true]
          exact ((ofPlain behind later (opensBehindBackslash_tail unescaped) goesOn).behind
            (passes_escape _ c) (frank_of_solid solid)).behind (passes_held abreast.blank new)
            (frank_held abreast.blank)
  | case9 skipping before text spaced rest held inductionHypothesis =>
      cases written with
      | charClass isClass behind =>
          obtain ⟨here, later⟩ := List.forall_mem_cons.mp frank
          have goesOn : Abreast .item .item rest false [] none :=
            Abreast.behind (.same _) (fun same => by cases same) (fun same => by cases same)
              abreast.others_tail.2
          have whole : ∀ unit ∈ lexemes text, unit.Frank := by
            rw [isClass.lexemes_eq]
            exact List.forall_mem_singleton.mpr here
          exact ((inductionHypothesis behind later (opensBehindBackslash_tail unescaped)
            goesOn).behind (passes_class isClass _) whole).behind (passes_held abreast.blank new)
            (frank_held abreast.blank)
  | case10 skipping before text rest held inductionHypothesis =>
      cases written with
      | openClass opened =>
          rename_i inner
          have last : Tamed (if held = [] then new else .item) ('[' :: inner) := by
            refine ⟨?_, ?_⟩
            · rw [opened]
              rfl
            · rw [opened]
              exact frank
          rw [widenUnits, List.reverse_nil, List.append_nil]
          exact last.behind (passes_held abreast.blank new)
            (frank_held abreast.blank)

theorem tamed_widenWords
    (sound : limits.Sound)
    {pattern : List Char}
    (frank : ∀ unit ∈ lexemes pattern, unit.Frank)
    (unescaped : opensBehindBackslash (lexemes pattern) = false)
    (others : .other ∉ endlessRepeats .nothing (lexemes pattern)) :
    Tamed .nothing (widenWords limits pattern) := by
  rw [widenWords_eq]
  have start : Abreast .nothing .nothing (lexemes pattern) false [] none :=
    Abreast.behind (.same _) (fun same => by cases same) (fun same => by cases same) others
  exact tamed_widenUnits sound (written_lexemes pattern) frank unescaped start

/-! ### Blanks -/

theorem passes_gap
    (sound : limits.Sound)
    (inRun : Bool)
    (before : Before) :
    Passes before (gap limits inRun) (if inRun then .repeated else before) := by
  cases inRun with
  | true => exact passes_space sound (by decide) before
  | false => exact passes_nil before

theorem endlessRepeats_tail
    {before : Before}
    {unit : Lexeme}
    {rest : List Lexeme}
    (bounded : endlessRepeats before (unit :: rest) = []) :
    (before.read unit).1 = none ∧ endlessRepeats (before.read unit).2 rest = [] := by
  rw [endlessRepeats, List.append_eq_nil_iff, Option.toList_eq_nil_iff] at bounded
  exact bounded

/-- Where blanks are replaced, no repeat without an upper bound is added: `old` stands before the
lexemes, `new` before them in what has been put out, without the run of blanks. -/
theorem bounded_widenBlanks
    (sound : limits.Sound)
    {units : List Lexeme}
    {old new : Before}
    {inRun : Bool}
    (written : Written units)
    (frank : ∀ unit ∈ units, unit.Frank)
    (bounded : endlessRepeats old units = [])
    (abreast : if inRun then old = .item else new.Under old) :
    endlessRepeats new (lexemes (widenBlanks limits inRun (units.flatMap Lexeme.text))) = [] := by
  have under : (if inRun then .repeated else new).Under old := by
    cases inRun with
    | true =>
        obtain rfl : old = .item := abreast
        exact .repeatedItem
    | false => exact abreast
  have space := passes_gap sound inRun new
  induction written generalizing old new inRun with
  | nil =>
      have last : widenBlanks limits inRun [] = gap limits inRun := by cases inRun <;> rfl
      rw [List.flatMap_nil, last]
      exact space.bounded
  | lone =>
      rw [List.flatMap_singleton, Lexeme.text, widenBlanks_gap rfl (by decide),
        space.endless_append]
      rfl
  | openClass opened =>
      rename_i inner
      have solid : Solid ('[' :: inner) :=
        (frank _ List.mem_cons_self).solid fun _ same => by cases same
      have kept : widenBlanks limits false inner = inner :=
        widenBlanks_of_solid (List.forall_mem_cons.mp solid).2
      rw [List.flatMap_singleton, Lexeme.text, widenBlanks_gap rfl (by decide), kept,
        space.endless_append, opened]
      rfl
  | escape c written inductionHypothesis =>
      rename_i rest
      obtain ⟨here, later⟩ := List.forall_mem_cons.mp frank
      have solid : Solid ['\\', c] := here.solid fun _ same => by cases same
      have noBlank : isBlank c = false := (List.forall_mem_cons.mp solid).2 c List.mem_cons_self
      have passed : widenBlanks limits inRun ((.escape (some c) :: rest).flatMap Lexeme.text) =
          (gap limits inRun ++ ['\\', c]) ++
            widenBlanks limits false (rest.flatMap Lexeme.text) := by
        rw [List.flatMap_cons, Lexeme.text, List.cons_append, List.singleton_append,
          widenBlanks_gap rfl (by decide), widenBlanks_cons noBlank]
        simp
      rw [passed, (space.append (passes_escape _ c)).endless_append]
      exact inductionHypothesis later bounded (.same _) (.same _) (passes_gap sound false _)
  | charClass isClass written inductionHypothesis =>
      rename_i text spaced rest
      obtain ⟨here, later⟩ := List.forall_mem_cons.mp frank
      have solid : Solid text := here.solid fun _ same => by cases same
      have passed :
          widenBlanks limits inRun ((.charClass text spaced :: rest).flatMap Lexeme.text) =
            (gap limits inRun ++ text) ++ widenBlanks limits false (rest.flatMap Lexeme.text) := by
        obtain ⟨inner, rfl⟩ := isClass.starts
        rw [List.flatMap_cons, Lexeme.text, List.cons_append, widenBlanks_gap rfl (by decide),
          widenBlanks_solid (List.forall_mem_cons.mp solid).2]
        simp
      rw [passed, (space.append (passes_class isClass _)).endless_append]
      exact inductionHypothesis later bounded (.same _) (.same _) (passes_gap sound false _)
  | other simple written inductionHypothesis =>
      rename_i c rest
      obtain ⟨quiet, boundedRest⟩ := endlessRepeats_tail bounded
      have later := (List.forall_mem_cons.mp frank).2
      rw [List.flatMap_cons, Lexeme.text, List.singleton_append]
      cases blank : isBlank c with
      | true =>
          rw [Before.read, next_of_isBlank blank] at boundedRest
          rw [widenBlanks, if_pos blank]
          exact inductionHypothesis later boundedRest rfl .repeatedItem (passes_gap sound true new)
      | false =>
          by_cases mark : c = '?' ∧ inRun = true
          · obtain ⟨rfl, rfl⟩ := mark
            obtain rfl : old = .item := abreast
            have passed : widenBlanks limits true ('?' :: rest.flatMap Lexeme.text) =
                Pattern.space 0 limits ++ widenBlanks limits false (rest.flatMap Lexeme.text) := rfl
            rw [passed, (passes_space sound (Int.le_refl 0) new).endless_append]
            exact inductionHypothesis later boundedRest (.same _) (.same _)
              (passes_gap sound false _)
          · have passed : widenBlanks limits inRun (c :: rest.flatMap Lexeme.text) =
                (gap limits inRun ++ [c]) ++
                  widenBlanks limits false (rest.flatMap Lexeme.text) := by
              rw [List.append_assoc, List.singleton_append]
              cases inRun with
              | false => exact widenBlanks_cons blank _
              | true => exact widenBlanks_gap blank (fun same => mark ⟨same, rfl⟩) true _
            obtain ⟨underRest, here⟩ := under.read (.other c)
            have noRepeat := here.elim id fun same => same.trans quiet
            have sign := passes_simple simple (Prod.ext noRepeat rfl)
            rw [passed, (space.append sign).endless_append]
            exact inductionHypothesis later boundedRest underRest underRest
              (passes_gap sound false _)

/-! ## Edges -/

/-- The number of backslashes that a text ends in. -/
def trailing (text : List Char) : Nat :=
  (text.reverse.takeWhile (· == '\\')).length

theorem even_trailing_append
    {front : List Char}
    (even : Even (trailing front))
    (rest : List Char) :
    Even (trailing (front ++ rest)) ↔ Even (trailing rest) := by
  unfold trailing
  rw [List.reverse_append, List.takeWhile_append]
  split
  · rename_i all
    rw [List.length_append, ← all, Nat.even_add]
    exact iff_true_right even
  · exact Iff.rfl

theorem trailing_of_getLast?
    {text : List Char}
    (plain : text.getLast? ≠ some '\\') :
    trailing text = 0 := by
  rw [← List.head?_reverse] at plain
  unfold trailing
  cases reversed : text.reverse with
  | nil => rfl
  | cons c rest =>
      rw [reversed] at plain
      have noEscape : (c == '\\') = false :=
        beq_false_of_ne fun same => plain (congrArg some same)
      rw [List.takeWhile_cons, noEscape]
      rfl

/-- A dot and a sign behind a text: the dot is escaped if the text ends in an odd number of
backslashes, and stands for itself otherwise. -/
def Told (sign : Char) (text : List Char) : Prop :=
  (Even (trailing text) ∧
      lexemes (text ++ ['.', sign]) = lexemes text ++ [.other '.', .other sign]) ∨
    (¬Even (trailing text) ∧
      ∃ front, lexemes (text ++ ['.', sign]) = front ++ [.escape (some '.'), .other sign])

theorem Told.behind
    {sign : Char}
    {front text : List Char}
    (told : Told sign text)
    (whole : Whole front)
    (even : Even (trailing front)) :
    Told sign (front ++ text) := by
  unfold Told
  rw [even_trailing_append even, List.append_assoc, whole, whole]
  rcases told with ⟨evenText, cut⟩ | ⟨oddText, units, cut⟩
  · exact Or.inl ⟨evenText, by rw [cut, List.append_assoc]⟩
  · exact Or.inr ⟨oddText, lexemes front ++ units, by rw [cut, List.append_assoc]⟩

/-- A class ends in a bracket, so it ends before a dot and a sign behind it. -/
theorem IsClass.within
    {sign : Char}
    {inside text behind : List Char}
    {spaced : Bool}
    (isClass : IsClass inside spaced)
    (noBracket : sign ≠ ']')
    (split : text ++ ['.', sign] = inside ++ behind) :
    ∃ more, text = inside ++ more := by
  have ends := isClass.ends
  rcases List.append_eq_append_iff.mp split with ⟨more, rfl, cut⟩ | ⟨more, same, -⟩
  · rcases List.cons_eq_append_iff.mp cut with ⟨rfl, -⟩ | ⟨others, rfl, signs⟩
    · exact ⟨[], by simp⟩
    · rw [List.getLast?_append, List.getLast?_cons] at ends
      rcases List.singleton_eq_append_iff.mp signs with ⟨rfl, -⟩ | ⟨rfl, -⟩
      · cases ends
      · exact absurd (Option.some.inj ends) noBracket
  · exact ⟨more, same⟩

theorem told_of_closed
    {sign : Char}
    (simple : isSimple sign = true)
    (noBracket : sign ≠ ']')
    {text : List Char}
    (closed : ∀ inner, .openClass inner ∉ lexemes (text ++ ['.', sign])) :
    Told sign text := by
  have alone : lexemes [sign] = [.other sign] := lexemes_simple simple []
  have dotted : lexemes ['.', sign] = [.other '.', .other sign] := by
    rw [lexemes_simple rfl, alone]
  have later : ∀ {front text : List Char}, Whole front →
      (∀ inner, .openClass inner ∉ lexemes (front ++ text ++ ['.', sign])) →
      ∀ inner, .openClass inner ∉ lexemes (text ++ ['.', sign]) := by
    intro front text whole closed inner member
    rw [List.append_assoc, whole] at closed
    exact closed inner (List.mem_append_right _ member)
  induction length : text.length using Nat.strong_induction_on generalizing text with
  | _ steps inductionHypothesis =>
      cases text with
      | nil => exact Or.inl ⟨⟨0, rfl⟩, dotted⟩
      | cons c rest =>
          have goesOn : ∀ {front behind : List Char}, c :: rest = front ++ behind → front ≠ [] →
              Whole front → Even (trailing front) → Told sign (c :: rest) := by
            intro front behind split some whole even
            rw [split] at closed length ⊢
            have shorter : behind.length < steps := by
              have := List.length_pos_iff.mpr some
              rw [List.length_append] at length
              omega
            exact (inductionHypothesis _ shorter (later whole closed) rfl).behind whole even
          by_cases single : isSimple c = true
          · have noEscape : [c].getLast? ≠ some '\\' := fun same =>
              (isSimple_iff.mp single).1 (Option.some.inj same)
            exact goesOn rfl (List.cons_ne_nil c [])
              (whole_simples (List.forall_mem_singleton.mpr single))
              ⟨0, trailing_of_getLast? noEscape⟩
          · by_cases escape : c = '\\'
            · subst escape
              cases rest with
              | nil =>
                  refine Or.inr ⟨by decide, [], ?_⟩
                  rw [List.singleton_append, lexemes_escape, alone]
                  rfl
              | cons d behind =>
                  have even : Even (trailing ['\\', d]) := by
                    by_cases again : d = '\\'
                    · subst again
                      decide
                    · exact ⟨0, trailing_of_getLast? fun same => again (Option.some.inj same)⟩
                  have split : '\\' :: d :: behind = ['\\', d] ++ behind := rfl
                  exact goesOn split (List.cons_ne_nil _ _) (whole_escape d) even
            · obtain rfl : c = '[' := by
                by_contra bracket
                exact single (isSimple_iff.mpr ⟨escape, bracket⟩)
              rcases classLexeme_cases (rest ++ ['.', sign]) with
                ⟨inside, spaced, behind, isClass, whole⟩ | opened
              · have even : Even (trailing inside) := by
                  refine ⟨0, trailing_of_getLast? ?_⟩
                  rw [isClass.ends]
                  decide
                obtain ⟨inner, rfl⟩ := isClass.starts
                have spelled : ('[' :: rest) ++ ['.', sign] = ('[' :: inner) ++ behind := whole
                obtain ⟨more, split⟩ := isClass.within noBracket spelled
                exact goesOn split (List.cons_ne_nil _ _) isClass.whole even
              · exact absurd (opened ▸ List.mem_cons_self) (closed _)

/-- A sign that leaves words open behind a dot. -/
def IsOpenSign (c : Char) : Prop :=
  c = '*' ∨ c = '+'

theorem isOpenSign_iff
    {c : Char} :
    (c == '*' || c == '+') = true ↔ IsOpenSign c := by
  rw [Bool.or_eq_true, beq_iff_eq, beq_iff_eq, IsOpenSign]

theorem looseEnd_iff
    {text : List Char} :
    looseEnd text = true ↔ ∃ before sign,
      text = before ++ ['.', sign] ∧ IsOpenSign sign ∧ before.getLast? ≠ some '\\' := by
  rw [looseEnd]
  refine ⟨fun loose => ?_, ?_⟩
  · unfold looseEndReversed at loose
    split at loose
    · rename_i sign before reversed
      rw [Bool.and_eq_true, isOpenSign_iff, bne_iff_ne] at loose
      refine ⟨before.reverse, sign, ?_, loose.1, ?_⟩
      · rw [← List.reverse_reverse text, reversed]
        simp
      · rw [List.getLast?_reverse]
        exact loose.2
    · cases loose
  · rintro ⟨before, sign, rfl, isSign, plain⟩
    rw [List.reverse_append]
    change ((sign == '*' || sign == '+') && before.reverse.head? != some '\\') = true
    rw [Bool.and_eq_true, isOpenSign_iff, bne_iff_ne, List.head?_reverse]
    exact ⟨isSign, plain⟩

theorem looseStart_iff
    {text : List Char} :
    looseStart text = true ↔ ∃ sign rest, text = '.' :: sign :: rest ∧ IsOpenSign sign := by
  unfold looseStart
  refine ⟨fun loose => ?_, ?_⟩
  · split at loose
    · exact ⟨_, _, rfl, isOpenSign_iff.mp loose⟩
    · cases loose
  · rintro ⟨sign, rest, rfl, isSign⟩
    exact isOpenSign_iff.mpr isSign

theorem IsOpenSign.simple
    {c : Char}
    (isSign : IsOpenSign c) :
    isSimple c = true ∧ c ≠ ']' := by
  rcases isSign with rfl | rfl <;> decide

/-- The lexemes of a text without the open words that it ends in. -/
theorem lexemes_dropEnd
    {text : List Char}
    {sign : Char}
    (isSign : IsOpenSign sign)
    (plain : text.getLast? ≠ some '\\')
    (closed : ∀ inner, .openClass inner ∉ lexemes (text ++ ['.', sign])) :
    lexemes (text ++ ['.', sign]) = lexemes text ++ [.other '.', .other sign] := by
  have even : Even (trailing text) := ⟨0, trailing_of_getLast? plain⟩
  rcases told_of_closed isSign.simple.1 isSign.simple.2 closed with ⟨-, cut⟩ | ⟨odd, -⟩
  · exact cut
  · exact absurd even odd

/-- Open words at the end are still there when those at the start are dropped. -/
theorem looseEnd_drop
    {sign : Char}
    {rest : List Char}
    (isSign : IsOpenSign sign)
    (nonempty : rest ≠ [])
    (loose : looseEnd ('.' :: sign :: rest) = true) :
    ∃ before last, rest = before ++ ['.', last] ∧ IsOpenSign last ∧
      before.getLast? ≠ some '\\' := by
  obtain ⟨before, last, split, isLast, plain⟩ := looseEnd_iff.mp loose
  rcases List.cons_eq_append_iff.mp split with ⟨rfl, same⟩ | ⟨more, rfl, behind⟩
  · cases same
    exact absurd rfl nonempty
  · rcases List.cons_eq_append_iff.mp behind with ⟨rfl, same⟩ | ⟨others, rfl, ends⟩
    · cases same
      rcases isSign with same | same <;> cases same
    · refine ⟨others, last, ends, isLast, fun escape => plain ?_⟩
      rw [List.getLast?_cons, List.getLast?_cons, escape]
      rfl

/-- The lexemes of a pattern are those of its core with the open words at its edges around them. -/
theorem lexemes_core
    {pattern : List Char}
    (closed : ∀ inner, .openClass inner ∉ lexemes pattern) :
    ∃ front back, lexemes pattern = front ++ (lexemes (core pattern) ++ back) ∧
      (front = [] ∨ ∃ sign, IsOpenSign sign ∧ front = [.other '.', .other sign]) := by
  have ended : ∀ body : List Char, (∀ inner, .openClass inner ∉ lexemes body) →
      (∃ before sign, body = before ++ ['.', sign] ∧ IsOpenSign sign ∧
        before.getLast? ≠ some '\\') →
      ∃ back, lexemes body = lexemes (body.take (body.length - 2)) ++ back := by
    rintro body closed ⟨before, sign, rfl, isSign, plain⟩
    have dropped : (before ++ ['.', sign]).take ((before ++ ['.', sign]).length - 2) = before := by
      rw [List.length_append]
      exact List.take_left
    exact ⟨_, by rw [lexemes_dropEnd isSign plain closed, dropped]⟩
  unfold core
  dsimp only
  cases start : looseStart pattern with
  | false =>
      rw [if_neg Bool.false_ne_true]
      cases loose : looseEnd pattern with
      | false => exact ⟨[], [], by simp, Or.inl rfl⟩
      | true =>
          obtain ⟨back, cut⟩ := ended pattern closed (looseEnd_iff.mp loose)
          exact ⟨[], back, cut, Or.inl rfl⟩
  | true =>
      obtain ⟨sign, rest, rfl, isSign⟩ := looseStart_iff.mp start
      have cut : lexemes ('.' :: sign :: rest) = [.other '.', .other sign] ++ lexemes rest := by
        rw [lexemes_simple rfl, lexemes_simple isSign.simple.1]
        rfl
      rw [cut] at closed ⊢
      have closedRest : ∀ inner, .openClass inner ∉ lexemes rest :=
        fun inner member => closed inner (List.mem_append_right _ member)
      have isFront : ([.other '.', .other sign] : List Lexeme) = [] ∨ ∃ other, IsOpenSign other ∧
          ([.other '.', .other sign] : List Lexeme) = [.other '.', .other other] :=
        Or.inr ⟨sign, isSign, rfl⟩
      rw [if_pos rfl]
      cases loose : looseEnd ('.' :: sign :: rest) with
      | false => exact ⟨_, [], by simp, isFront⟩
      | true =>
          by_cases none : rest = []
          · subst none
            exact ⟨_, [], rfl, isFront⟩
          · obtain ⟨back, cutRest⟩ := ended rest closedRest (looseEnd_drop isSign none loose)
            exact ⟨_, back, congrArg (_ ++ ·) cutRest, isFront⟩

/-! ### Open words at the end -/

/-- A text that ends in a dot that is not escaped and a sign that leaves words open behind it. -/
def EndsOpen (text : List Char) : Prop :=
  ∃ before sign, text = before ++ ['.', sign] ∧ IsOpenSign sign ∧ Even (trailing before)

theorem opensBehindBackslash_suffix
    {front rest : List Lexeme}
    (unescaped : opensBehindBackslash (front ++ rest) = false) :
    opensBehindBackslash rest = false := by
  induction front with
  | nil => exact unescaped
  | cons unit more inductionHypothesis =>
      exact inductionHypothesis (opensBehindBackslash_tail unescaped)

theorem startsOpen_append
    {units : List Lexeme}
    (opens : startsOpen units = true)
    (rest : List Lexeme) :
    startsOpen (units ++ rest) = true := by
  unfold startsOpen at opens
  split at opens
  · exact opens
  · cases opens

theorem opensBehindBackslash_prefix
    {units rest : List Lexeme}
    (unescaped : opensBehindBackslash (units ++ rest) = false) :
    opensBehindBackslash units = false := by
  induction units with
  | nil => rfl
  | cons unit more inductionHypothesis =>
      rw [List.cons_append, opensBehindBackslash, Bool.or_eq_false_iff] at unescaped
      rw [opensBehindBackslash, inductionHypothesis unescaped.2, Bool.or_false]
      by_contra behind
      rw [Bool.not_eq_false, Bool.and_eq_true] at behind
      have opens := startsOpen_append behind.2 rest
      rw [behind.1, opens] at unescaped
      cases unescaped.1

theorem Written.behind
    {front rest : List Lexeme}
    (written : Written (front ++ rest)) :
    Written rest := by
  induction front with
  | nil => exact written
  | cons unit more inductionHypothesis =>
      apply inductionHypothesis
      rw [List.cons_append] at written
      generalize more ++ rest = units at written
      cases written with
      | lone => exact .nil
      | openClass _ => exact .nil
      | escape _ behind => exact behind
      | charClass _ behind => exact behind
      | other _ behind => exact behind

/-- In front of other lexemes, a lexeme that ends in a backslash is an escaped one. -/
theorem Written.eq_escape
    {unit next : Lexeme}
    {rest : List Lexeme}
    {before : List Char}
    (written : Written (unit :: next :: rest))
    (ends : (before ++ unit.text).getLast? = some '\\') :
    unit = .escape (some '\\') := by
  rw [List.getLast?_append] at ends
  cases written with
  | escape c behind =>
      cases ends
      rfl
  | charClass isClass behind =>
      rw [Lexeme.text, isClass.ends] at ends
      cases ends
  | other simple behind =>
      cases ends
      cases simple

theorem looseEnd_iff_endsOpen
    {text : List Char}
    (closed : ∀ inner, .openClass inner ∉ lexemes text)
    (unescaped : opensBehindBackslash (lexemes text) = false) :
    looseEnd text = true ↔ EndsOpen text := by
  rw [looseEnd_iff, EndsOpen]
  refine exists₂_congr fun before sign => and_congr_right fun split =>
    and_congr_right fun isSign => ⟨fun plain => ⟨0, trailing_of_getLast? plain⟩, ?_⟩
  subst split
  intro even ends
  rcases told_of_closed isSign.simple.1 isSign.simple.2 closed with ⟨-, cut⟩ | ⟨odd, -⟩
  · rw [cut] at unescaped
    have written := cut ▸ written_lexemes (before ++ ['.', sign])
    have spelled := flatMap_lexemes before
    rcases List.eq_nil_or_concat' (lexemes before) with none | ⟨front, unit, split⟩
    · rw [none] at spelled
      rw [← spelled] at ends
      cases ends
    · rw [split, List.flatMap_append, List.flatMap_singleton] at spelled
      rw [split, List.append_assoc] at written unescaped
      rw [← spelled] at ends
      have escape := written.behind.eq_escape ends
      have shut := opensBehindBackslash_suffix unescaped
      rw [escape, List.singleton_append, opensBehindBackslash, startsOpen,
        isOpenSign_iff.mpr isSign] at shut
      cases shut
  · exact odd even

/-! ## Patterns whose open words are all there is to bound -/

theorem closed_of_compile
    {pattern : String}
    {made : Compiled}
    (compiled : compile limits pattern = .ok made)
    (inner : List Char) :
    .openClass inner ∉ lexemes pattern.toList := by
  rw [compile] at compiled
  split at compiled
  · cases compiled
  · rename_i accepted
    unfold findings at accepted
    split at accepted
    · cases accepted
    · split at accepted
      · cases accepted
      · exact openClass_not_mem_of_lexemeFindings accepted inner

theorem looseEnd_of_compile
    {pattern : String}
    {made : Compiled}
    (compiled : compile limits pattern = .ok made) :
    made.looseEnd = looseEnd pattern.toList := by
  rw [compile] at compiled
  split at compiled
  · cases compiled
  · dsimp only at compiled
    split at compiled
    · cases compiled
    · cases compiled
      rfl

theorem tamed_widenWords_core
    (sound : limits.Sound)
    {pattern : List Char}
    (closed : ∀ inner, .openClass inner ∉ lexemes pattern)
    (frank : ∀ unit ∈ lexemes pattern, unit.Frank)
    (unescaped : opensBehindBackslash (lexemes pattern) = false)
    (others : .other ∉ endlessRepeats .nothing (lexemes pattern)) :
    Tamed .nothing (widenWords limits (core pattern)) := by
  obtain ⟨front, back, cut, edge⟩ := lexemes_core closed
  rw [cut] at frank unescaped others
  have later := List.forall_mem_append.mp (List.forall_mem_append.mp frank).2
  have inner := opensBehindBackslash_prefix (opensBehindBackslash_suffix unescaped)
  have under : Before.nothing.Under (Before.nothing.after front) := by
    rcases edge with rfl | ⟨sign, isSign, rfl⟩
    · exact .same _
    · rcases isSign with rfl | rfl <;> exact .nothingRepeated
  refine tamed_widenWords sound later.1 inner fun member => others ?_
  rw [endlessRepeats_append, endlessRepeats_append]
  exact List.mem_append_right _ (List.mem_append_left _ (under.endlessRepeats_subset _ member))

/-- If the only repeats of an accepted pattern without an upper bound are open words, none of which
stands right behind an escaped backslash, and no blank is hidden behind a backslash or in a class,
then its inline form has no repeat without an upper bound, and it has a loose end just when it ends
in open words that are not escaped. -/
theorem compile_bounds_words
    (sound : limits.Sound)
    {pattern : String}
    {made : Compiled}
    (compiled : compile limits pattern = .ok made)
    (others : .other ∉ endlessRepeats .nothing (lexemes pattern.toList))
    (unescaped : opensBehindBackslash (lexemes pattern.toList) = false)
    (frank : ∀ unit ∈ lexemes pattern.toList, unit.Frank) :
    endlessRepeats .nothing (lexemes made.body) = [] ∧
      (made.looseEnd = true ↔ EndsOpen pattern.toList) := by
  have closed := closed_of_compile compiled
  have words := tamed_widenWords_core sound closed frank unescaped others
  have blanks := bounded_widenBlanks sound (written_lexemes _) words.frank words.bounded
    (show if false then _ else Before.nothing.Under .nothing from .same _)
  rw [flatMap_lexemes] at blanks
  rw [(spec_of_compile compiled).1, looseEnd_of_compile compiled]
  exact ⟨blanks, looseEnd_iff_endsOpen closed unescaped⟩

/-- A pattern with open words at both ends and between words, next to a class of their signs, an
escaped dot with a star, and a bounded repeat. -/
def endlessSample : String :=
  ".*Foo .+ (?:Bar|[.*])\x7b2,3\x7d v\\.?0 .* x\\\\ .+"

theorem compile_bounds_words_sample :
    ∃ made, compile {} endlessSample = .ok made ∧
      endlessRepeats .nothing (lexemes made.body) = [] ∧ made.looseEnd = true := by
  have accepted : (compile {} endlessSample).toOption.isSome = true := by decide +kernel
  obtain ⟨made, some⟩ := Option.isSome_iff_exists.mp accepted
  have compiled := eq_ok_of_toOption some
  have sound : ({} : Limits).Sound := ⟨by decide, by decide, by decide⟩
  obtain ⟨bounded, loose⟩ := compile_bounds_words sound compiled (by decide +kernel)
    (by decide +kernel) (by decide +kernel)
  have ends : EndsOpen endlessSample.toList :=
    ⟨endlessSample.toList.dropLast.dropLast, '+', by decide +kernel, Or.inr rfl, 0,
      by decide +kernel⟩
  exact ⟨made, compiled, bounded, loose.mpr ends⟩

-- The open words behind an escaped backslash are left as they are.
example :
    looseEnd "foo\\\\.*".toList = false ∧
      endlessRepeats .nothing (lexemes (widen {} "foo\\\\.*".toList)) = [.openWord] := by
  decide +kernel

-- The star that is put in for the blank repeats a class that has lost its bracket.
example : .other ∈ endlessRepeats .nothing (lexemes (widen {} "a\\ b".toList)) := by
  decide +kernel

end NoticeScan.Pattern
