import NoticeScan.Proofs.Locality
import NoticeScan.Regex.Search

/-!
# Expressions that fail otherwise than by a fault

An expression that cannot be compiled has a fault in its text, with two exceptions: a bound of a
repeat is written with digits that spell no bound, or flags for the whole expression ask for the
small and for the full character classes. Each reader is shown to fail for these reasons only, and
to go on behind what it has read.
-/

namespace NoticeScan.Regex

/-! ## What a text explains -/

/-- What a text has to hold for an error that is no fault in it. -/
inductive Breaks (text : List Char) : Error → Prop where
  | bound {digits : List Char} {error : Error} :
      digits <:+: text → (∀ c ∈ digits, isDecimal c = true) → boundOf digits = .error error →
      Breaks text error
  | classes :
      ['(', '?'] <:+: text → 'a' ∈ text → 'u' ∈ text → Breaks text .clashingClasses

/-- An error that is a fault, or one for which the text holds the reason. -/
inductive Explained (text : List Char) : Error → Prop where
  | fault (fault : Fault) (position : Option Nat) : Explained text (.syntaxFault fault position)
  | breaks {error : Error} : Breaks text error → Explained text error

/-- What a reader comes to: a result of some kind, or an error that the text explains. -/
def Ends {α : Type} (text : List Char) (good : α → Prop) : Except Error α → Prop
  | .ok value => good value
  | .error error => Explained text error

section Rules

variable {α β : Type} {text : List Char} {good : α → Prop} {better : β → Prop}

theorem ends_fault (fault : Fault) (position : Nat) :
    Ends text good (fault.at position) :=
  .fault fault (some position)

theorem Ends.bind
    {first : Except Error α}
    {second : α → Except Error β}
    (one : Ends text good first)
    (other : ∀ value, good value → Ends text better (second value)) :
    Ends text better (first >>= second) := by
  cases first with
  | error error => exact one
  | ok value => exact other value one

theorem Ends.mono
    {weaker : α → Prop}
    {result : Except Error α}
    (ends : Ends text good result)
    (weakens : ∀ value, good value → weaker value) :
    Ends text weaker result := by
  cases result with
  | error error => exact ends
  | ok value => exact weakens value ends

/-- A result of the kind, or an error that the text explains. -/
theorem Ends.cases
    {result : Except Error α}
    (ends : Ends text good result) :
    (∃ value, result = .ok value ∧ good value) ∨
      ∃ error, result = .error error ∧ Explained text error := by
  cases result with
  | error error => exact .inr ⟨error, rfl, ends⟩
  | ok value => exact .inl ⟨value, rfl, ends⟩

end Rules

/-- The input behind what has been read. -/
def Onward {α : Type} (input : Input) (result : α × Input) : Prop :=
  result.2.rest <:+ input.rest

section Readers

variable {text : List Char} {input : Input}

/-! ## Tokens -/

namespace Input

theorem ends_checked :
    Ends text (fun last => last = input) input.checked := by
  unfold checked
  split
  · exact ends_fault _ _
  · exact rfl

theorem ends_drop (count : Nat) :
    Ends text (fun last => last.rest = input.rest.drop count) (input.drop count) :=
  ends_checked.mono fun _ same => congrArg Input.rest same

theorem rest_of_peek?
    {token : Token}
    (peeked : input.peek? = some token) :
    input.rest = token.text ++ input.rest.drop token.width := by
  unfold peek? at peeked
  split at peeked
  · cases peeked
  · rename_i same
    cases peeked
    simp [same, Token.text, Token.width]
  · rename_i same
    cases peeked
    simp [same, Token.text, Token.width]

/-- The next token stands in front of what is to be read behind it. -/
theorem ends_next? :
    Ends text
      (fun found => ∀ token behind, found = some (token, behind) →
        input.rest = token.text ++ behind.rest)
      input.next? := by
  unfold next?
  split
  · exact nofun
  · rename_i token peeked
    rcases (ends_drop token.width).cases with ⟨behind, read, dropped⟩ | ⟨error, read, explained⟩
    · rw [read]
      rintro _ _ ⟨⟩
      rw [rest_of_peek? peeked, dropped]
    · rw [read]
      exact explained

theorem ends_take? (c : Char) :
    Ends text (fun found => ∀ behind, found = some behind → input.rest = c :: behind.rest)
      (input.take? c) := by
  unfold take?
  split
  · rename_i peeked
    rcases (ends_drop 1).cases with ⟨behind, read, dropped⟩ | ⟨error, read, explained⟩
    · rw [read]
      rintro _ ⟨⟩
      rw [rest_of_peek? peeked, dropped]
      rfl
    · rw [read]
      exact explained
  · exact nofun

/-- The characters that are taken belong to the class and stand in front of the rest. -/
theorem ends_takeWhile (accepts : Char → Bool) (count : Nat) :
    Ends text
      (fun taken => input.rest = taken.1 ++ taken.2.rest ∧ ∀ c ∈ taken.1, accepts c = true)
      (input.takeWhile accepts count) := by
  induction count generalizing input with
  | zero => exact ⟨rfl, nofun⟩
  | succ count inductionHypothesis =>
      unfold takeWhile
      split
      · rename_i c peeked
        split
        · rename_i accepted
          rcases (ends_drop 1).cases with ⟨behind, read, dropped⟩ | ⟨error, read, explained⟩
          · rw [read]
            have later : Ends text _ (behind.takeWhile accepts count) := inductionHypothesis
            rcases later.cases with ⟨last, more, taken, all⟩ | ⟨error, more, explained⟩
            · simp only [more]
              refine ⟨?_, List.forall_mem_cons.mpr ⟨accepted, all⟩⟩
              rw [rest_of_peek? peeked, List.cons_append, ← taken, dropped]
              rfl
            · simp only [more]
              exact explained
          · rw [read]
            exact explained
        · exact ⟨rfl, nofun⟩
      · exact ⟨rfl, nofun⟩

theorem ends_takeUntilFrom
    (closing : Char)
    (what : String)
    (steps : Nat)
    (found : List Char) :
    Ends text (Onward input) (input.takeUntilFrom closing what steps found) := by
  induction steps generalizing input found with
  | zero => exact List.suffix_rfl
  | succ steps inductionHypothesis =>
      unfold takeUntilFrom
      rcases ends_next?.cases with ⟨next, read, stands⟩ | ⟨error, read, explained⟩
      · rw [read]
        rcases next with _ | ⟨token, behind⟩
        · dsimp only
          split
          · exact ends_fault _ _
          · exact ends_fault _ _
        · have later : behind.rest <:+ input.rest := ⟨_, (stands _ _ rfl).symm⟩
          dsimp only
          split
          · split
            · exact ends_fault _ _
            · exact later
          · exact (inductionHypothesis _).mono fun _ onward => onward.trans later
      · rw [read]
        exact explained

theorem ends_takeUntil (closing : Char) (what : String) :
    Ends text (Onward input) (input.takeUntil closing what) :=
  ends_takeUntilFrom _ _ _ _

theorem ends_skipPast (c : Char) (steps : Nat) :
    Ends text (fun found => ∀ last, found = some last → last.rest <:+ input.rest)
      (input.skipPast c steps) := by
  induction steps generalizing input with
  | zero => exact nofun
  | succ steps inductionHypothesis =>
      unfold skipPast
      rcases ends_next?.cases with ⟨next, read, stands⟩ | ⟨error, read, explained⟩
      · rw [read]
        rcases next with _ | ⟨token, behind⟩
        · exact nofun
        · have later : behind.rest <:+ input.rest := ⟨_, (stands _ _ rfl).symm⟩
          dsimp only
          split
          · rintro _ ⟨⟩
            exact later
          · exact inductionHypothesis.mono fun _ onward last same =>
              (onward last same).trans later
      · rw [read]
        exact explained

end Input

/-! ## Escapes -/

theorem ends_hexEscape (letter : Char) (width : Nat) :
    Ends text (Onward input) (hexEscape letter width input) := by
  refine (Input.ends_takeWhile isHex width).bind fun ⟨digits, behind⟩ ⟨whole, _⟩ => ?_
  dsimp only
  split
  · exact ends_fault _ _
  · split
    · exact ends_fault _ _
    · exact ⟨_, whole.symm⟩

theorem ends_namedEscape :
    Ends text (Onward input) (namedEscape input) := by
  refine (Input.ends_take? _).bind fun found _ => ?_
  split
  · exact ends_fault _ _
  · exact (Input.ends_takeUntil _ _).bind fun _ _ => ends_fault _ _

theorem ends_octalEscape (digits : List Char) {behind : Input}
    (onward : behind.rest <:+ input.rest) :
    Ends text (Onward input) (octalEscape digits behind) := by
  unfold octalEscape
  split
  · exact ends_fault _ _
  · exact onward

theorem ends_selfEscape (c : Char) :
    Ends text (Onward input) (selfEscape c input) := by
  unfold selfEscape
  split
  · exact ends_fault _ _
  · exact List.suffix_rfl

theorem ends_numberEscape (c : Char) :
    Ends text (Onward input) (numberEscape c input) := by
  refine (Input.ends_takeWhile _ _).bind fun ⟨second, behind⟩ ⟨whole, _⟩ => ?_
  have onward : behind.rest <:+ input.rest := ⟨_, whole.symm⟩
  dsimp only
  split
  · exact onward
  · split
    · refine (Input.ends_takeWhile _ _).bind fun ⟨third, last⟩ ⟨more, _⟩ => ?_
      have later : last.rest <:+ input.rest := .trans ⟨_, more.symm⟩ onward
      dsimp only
      split
      · exact onward
      · exact ends_octalEscape _ later
    · exact onward

theorem ends_octalFrom (c : Char) :
    Ends text (Onward input) (do
      let (more, behind) ← input.takeWhile isOctal 2
      octalEscape (c :: more) behind) :=
  (Input.ends_takeWhile _ _).bind fun _ taken => ends_octalEscape _ ⟨_, taken.1.symm⟩

theorem ends_classEscape (c : Char) :
    Ends text (Onward input) (classEscape c input) := by
  unfold classEscape
  split
  · exact List.suffix_rfl
  · exact List.suffix_rfl
  · exact ends_hexEscape _ _
  · split
    · exact ends_namedEscape
    · split
      · exact ends_octalFrom c
      · exact ends_selfEscape c

theorem ends_outerEscape (c : Char) :
    Ends text (Onward input) (outerEscape c input) := by
  unfold outerEscape
  split
  · exact List.suffix_rfl
  · split
    · exact List.suffix_rfl
    · exact List.suffix_rfl
    · exact ends_hexEscape _ _
    · split
      · exact ends_namedEscape
      · split
        · exact ends_octalFrom c
        · split
          · exact ends_numberEscape c
          · exact ends_selfEscape c

/-! ## Classes -/

theorem ends_classEntry (token : Token) :
    Ends text (Onward input) (classEntry token input) := by
  cases token with
  | plain c => exact List.suffix_rfl
  | escaped c =>
      refine (ends_classEscape c).bind fun ⟨escape, behind⟩ onward => ?_
      cases escape with
      | point x => exact onward
      | category kind negated => exact onward
      | anchor letter => exact ends_fault _ _
      | group index => exact ends_fault _ _

theorem ends_classRange
    (low high : Member)
    (lowToken highToken : Token)
    (behind : Input) :
    Ends text (fun _ => True) (classRange low high lowToken highToken behind) := by
  unfold classRange
  split
  · split
    · exact ends_fault _ _
    · trivial
  · exact ends_fault _ _

theorem ends_classBodyFrom (start steps : Nat) (found : List Member) :
    Ends text (Onward input) (classBodyFrom start steps found input) := by
  induction steps generalizing input found with
  | zero => exact List.suffix_rfl
  | succ steps inductionHypothesis =>
      unfold classBodyFrom
      refine Input.ends_next?.bind fun next stands => ?_
      split
      · exact ends_fault _ _
      · rename_i token inside
        have entered : inside.rest <:+ input.rest := ⟨_, (stands _ _ rfl).symm⟩
        split
        · exact entered
        · refine (ends_classEntry token).bind fun ⟨low, behind⟩ onward => ?_
          have first : behind.rest <:+ input.rest := onward.trans entered
          refine (Input.ends_take? _).bind fun dash stands => ?_
          split
          · exact (inductionHypothesis _).mono fun _ onward => onward.trans first
          · rename_i dashed
            have second : dashed.rest <:+ input.rest :=
              .trans ⟨['-'], (stands _ rfl).symm⟩ first
            refine Input.ends_next?.bind fun next stands => ?_
            split
            · exact ends_fault _ _
            · rename_i other last
              have third : last.rest <:+ input.rest := .trans ⟨_, (stands _ _ rfl).symm⟩ second
              split
              · exact third
              · refine (ends_classEntry other).bind fun ⟨high, close⟩ onward => ?_
                refine (ends_classRange _ _ _ _ _).bind fun range _ => ?_
                exact (inductionHypothesis _).mono fun _ more =>
                  more.trans (onward.trans third)

theorem ends_classBody :
    Ends text (fun body => body.2.2.rest <:+ input.rest) (classBody input) := by
  refine (Input.ends_take? _).bind fun found stands => ?_
  split
  · rename_i inside
    have entered : inside.rest <:+ input.rest := ⟨['^'], (stands _ rfl).symm⟩
    exact (ends_classBodyFrom _ _ _).bind fun _ onward => onward.trans entered
  · exact (ends_classBodyFrom _ _ _).bind fun _ onward => onward

/-! ## Flags -/

/-- The letter of a flag occurs in a text. -/
def Named (text : List Char) (flag : InlineFlag) : Prop :=
  ∃ c ∈ text, InlineFlag.ofLetter? c = some flag

theorem ends_refuseFlag {α : Type} {good : α → Prop} (token : Token) (behind : Input)
    (fault : Fault) :
    Ends text good (refuseFlag token behind fault) :=
  ends_fault _ _

/-- Flags are set by letters of the text. -/
theorem ends_flagsOn
    {steps : Nat}
    {before : List InlineFlag}
    {flag : InlineFlag}
    (inside : input.rest <:+ text)
    (named : ∀ other ∈ flag :: before, Named text other) :
    Ends text
      (fun set => set.2.2.rest <:+ input.rest ∧ ∀ other ∈ set.1, Named text other)
      (flagsOn steps before flag input) := by
  induction steps generalizing input before flag with
  | zero => exact ends_fault _ _
  | succ steps inductionHypothesis =>
      unfold flagsOn
      split
      · exact ends_fault _ _
      · split
        · exact ends_fault _ _
        · refine Input.ends_next?.bind fun next stands => ?_
          split
          · exact ends_fault _ _
          · rename_i token behind
            have whole := stands _ _ rfl
            have later : behind.rest <:+ input.rest := ⟨_, whole.symm⟩
            cases token with
            | escaped c => exact ends_refuseFlag _ _ _
            | plain c =>
                dsimp only
                split
                · exact ⟨later, named⟩
                · split
                  · rename_i letter
                    have present : Named text _ :=
                      ⟨c, inside.subset (by simp [whole, Token.text]), letter⟩
                    exact (inductionHypothesis (later.trans inside)
                      (List.forall_mem_cons.mpr ⟨present, named⟩)).mono
                        fun _ set => ⟨set.1.trans later, set.2⟩
                  · exact ends_refuseFlag _ _ _

theorem ends_flagsOff
    (steps : Nat)
    (before : List InlineFlag)
    (fault : Fault) :
    Ends text (Onward input) (flagsOff steps before fault input) := by
  induction steps generalizing input before fault with
  | zero => exact ends_fault _ _
  | succ steps inductionHypothesis =>
      unfold flagsOff
      refine Input.ends_next?.bind fun next stands => ?_
      split
      · exact ends_fault _ _
      · rename_i token behind
        have later : behind.rest <:+ input.rest := ⟨_, (stands _ _ rfl).symm⟩
        cases token with
        | escaped c => exact ends_refuseFlag _ _ _
        | plain c =>
            dsimp only
            split
            · exact later
            · split
              · exact ends_refuseFlag _ _ _
              · split
                · exact ends_fault _ _
                · exact (inductionHypothesis _ _).mono fun _ onward => onward.trans later

theorem ends_flagsSet
    {first : Char}
    (bound : Nat)
    (member : first ∈ text)
    (inside : input.rest <:+ text) :
    Ends text
      (fun set => set.2.2.rest <:+ input.rest ∧ ∀ flag ∈ set.1, Named text flag)
      (flagsSet bound first input) := by
  unfold flagsSet
  split
  · rename_i flag letter
    exact ends_flagsOn inside (by simpa using ⟨first, member, letter⟩)
  · exact ⟨List.suffix_rfl, nofun⟩

theorem ends_flagsEnd
    (bound : Nat)
    (on : List InlineFlag)
    (closing : Char) :
    Ends text (fun list => Onward input list ∧ ∀ all, list.1 = .everywhere all → all = on)
      (flagsEnd bound on closing input) := by
  unfold flagsEnd
  split
  · exact ⟨List.suffix_rfl, fun _ same => (FlagList.everywhere.inj same).symm⟩
  · split
    · exact ends_fault _ _
    · have cleared : Ends text (Onward input) (flagsCleared bound closing input) := by
        unfold flagsCleared
        split
        · exact ends_flagsOff _ _ _
        · exact List.suffix_rfl
      refine cleared.bind fun ⟨off, last⟩ onward => ?_
      dsimp only
      split
      · exact ends_fault _ _
      · split
        · exact ends_fault _ _
        · exact ⟨onward, nofun⟩

theorem ends_flagList
    {first : Char}
    (member : first ∈ text)
    (inside : input.rest <:+ text) :
    Ends text
      (fun list => Onward input list ∧
        ∀ on, list.1 = .everywhere on → ∀ flag ∈ on, Named text flag)
      (flagList first input) := by
  rw [flagList_eq]
  refine (ends_flagsSet _ member inside).bind fun set ⟨first, named⟩ => ?_
  refine (ends_flagsEnd _ _ _).mono fun list ⟨onward, same⟩ => ⟨onward.trans first, ?_⟩
  intro on here
  rw [same on here]
  exact named

/-! ## Bounds of repeats -/

/-- Digits that spell no bound explain that there is none. -/
theorem ends_boundOf
    {digits : List Char}
    (inside : digits <:+: text)
    (decimal : ∀ c ∈ digits, isDecimal c = true) :
    Ends text (fun _ => True) (boundOf digits) := by
  cases bound : boundOf digits with
  | ok value => trivial
  | error error => exact .breaks (.bound inside decimal bound)

/-- The digits of the upper bound stand behind a comma; without one they are those of the lower
bound. -/
theorem ends_upperBound
    {count : Nat}
    {low : List Char} :
    Ends text
      (fun high => Onward input high ∧
        (high.1 = low ∨ high.1 <:+: input.rest ∧ ∀ c ∈ high.1, isDecimal c = true))
      (upperBound count low input) := by
  refine (Input.ends_take? _).bind fun found stands => ?_
  split
  · rename_i comma
    have whole := stands _ rfl
    refine (Input.ends_takeWhile _ _).mono fun ⟨high, last⟩ ⟨taken, decimal⟩ => ?_
    dsimp only at taken decimal
    rw [taken] at whole
    exact ⟨⟨',' :: high, by simp [whole]⟩, .inr ⟨⟨[','], last.rest, by simp [whole]⟩, decimal⟩⟩
  · exact ⟨List.suffix_rfl, .inl rfl⟩

theorem ends_closeBounds
    {mark : Nat}
    {low high : List Char}
    (lows : low <:+: text ∧ ∀ c ∈ low, isDecimal c = true)
    (highs : high <:+: text ∧ ∀ c ∈ high, isDecimal c = true) :
    Ends text
      (fun found => ∀ bounds behind, found = some (bounds, behind) → behind.rest <:+ input.rest)
      (closeBounds mark low high input) := by
  have upper : Ends text (fun _ => True) (upperNumber high) := by
    unfold upperNumber
    split
    · trivial
    · exact ends_boundOf highs.1 highs.2
  refine (Input.ends_take? _).bind fun found stands => ?_
  split
  · exact nofun
  · rename_i behind
    have later : behind.rest <:+ input.rest := ⟨['\x7d'], (stands _ rfl).symm⟩
    refine (ends_boundOf lows.1 lows.2).bind fun lowBound _ => ?_
    refine upper.bind fun highBound _ => ?_
    split
    · exact ends_fault _ _
    · rintro _ _ ⟨⟩
      exact later

theorem ends_bracedBounds (inside : input.rest <:+ text) :
    Ends text
      (fun found => ∀ bounds behind, found = some (bounds, behind) → behind.rest <:+ input.rest)
      (Reading.bracedBounds input) := by
  rw [bracedBounds_eq]
  refine (Input.ends_takeWhile _ _).bind fun ⟨low, afterLow⟩ ⟨taken, decimal⟩ => ?_
  have first : afterLow.rest <:+ input.rest := ⟨low, taken.symm⟩
  have lows : low <:+: text ∧ ∀ c ∈ low, isDecimal c = true :=
    ⟨.trans ⟨[], afterLow.rest, taken.symm⟩ inside.isInfix, decimal⟩
  refine ends_upperBound.bind fun ⟨high, afterHigh⟩ ⟨second, either⟩ => ?_
  have highs : high <:+: text ∧ ∀ c ∈ high, isDecimal c = true := by
    rcases either with same | ⟨among, decimal⟩
    · dsimp only at same
      rw [same]
      exact lows
    · exact ⟨among.trans (first.trans inside).isInfix, decimal⟩
  exact (ends_closeBounds lows highs).mono fun _ onward bounds behind same =>
    (onward bounds behind same).trans (second.trans first)

end Readers

/-! ## Steps -/

namespace Reading

/-- A reading has got on: it goes on in the text from an input, and the flags that it has met for
the whole expression are those met before and flags named in the text. -/
structure GotOn (text : List Char) (reading : Reading) (input : Input) (next : Reading) : Prop where
  onward : next.input.rest <:+ input.rest
  flags : ∀ flag ∈ next.everywhere,
    flag ∈ reading.everywhere ∨ ['(', '?'] <:+: text ∧ Named text flag

section Steps

variable {text : List Char} {reading : Reading} {input behind : Input}

theorem gotOn_of_eq
    {next : Reading}
    (onward : next.input.rest <:+ input.rest)
    (same : next.everywhere = reading.everywhere) :
    GotOn text reading input next where
  onward := onward
  flags _ member := .inl (same ▸ member)

theorem GotOn.from
    {next : Reading}
    (gotOn : GotOn text reading behind next)
    (later : behind.rest <:+ input.rest) :
    GotOn text reading input next where
  onward := gotOn.onward.trans later
  flags := gotOn.flags

theorem ends_checkLookbehind (index pos : Nat) :
    Ends text (fun _ => True) (reading.checkLookbehind index pos) := by
  unfold checkLookbehind
  split
  · trivial
  · split
    · exact ends_fault _ _
    · split
      · exact ends_fault _ _
      · trivial

theorem ends_pushAgain (index : Nat) :
    Ends text (GotOn text reading input) (reading.pushAgain input index) :=
  (ends_checkLookbehind _ _).bind fun _ _ => gotOn_of_eq List.suffix_rfl rfl

theorem ends_pushNumbered (index width : Nat) :
    Ends text (GotOn text reading input) (reading.pushNumbered input index width) := by
  unfold pushNumbered
  split
  · exact ends_fault _ _
  · split
    · exact ends_fault _ _
    · exact ends_pushAgain _

theorem ends_readEscape (c : Char) :
    Ends text (GotOn text reading input) (reading.readEscape c input) := by
  refine (ends_outerEscape c).bind fun ⟨escape, behind⟩ onward => ?_
  cases escape with
  | point x => exact gotOn_of_eq onward rfl
  | category kind negated => exact gotOn_of_eq onward rfl
  | anchor letter => exact gotOn_of_eq onward rfl
  | group index => exact (ends_pushNumbered _ _).mono fun _ gotOn => gotOn.from onward

theorem ends_readClass :
    Ends text (GotOn text reading input) (reading.readClass input) :=
  ends_classBody.bind fun _ onward => gotOn_of_eq onward rfl

theorem ends_readGreed :
    Ends text (Onward input) (readGreed input) := by
  refine (Input.ends_take? _).bind fun found stands => ?_
  split
  · exact ⟨['?'], (stands _ rfl).symm⟩
  · refine (Input.ends_take? _).bind fun found stands => ?_
    split
    · exact ⟨['+'], (stands _ rfl).symm⟩
    · exact List.suffix_rfl

theorem ends_repeatable (entry : Entry) (mark : Nat) :
    Ends text (fun _ => True) (entry.repeatable mark) := by
  cases entry with
  | bundle items => trivial
  | single item =>
      unfold Entry.repeatable
      dsimp only
      cases item.kind with
      | leaf leaf =>
          cases leaf with
          | place anchor => exact ends_fault _ _
          | _ => trivial
      | repeated => exact ends_fault _ _
      | _ => trivial

theorem ends_repeatLast (bounds : Bounds) (mark : Nat) :
    Ends text (GotOn text reading input) (reading.repeatLast bounds mark input) := by
  unfold repeatLast
  split
  · exact ends_fault _ _
  · exact (ends_repeatable _ _).bind fun _ _ =>
      ends_readGreed.bind fun _ onward => gotOn_of_eq onward rfl

theorem ends_readRepeat (c : Char) (inside : input.rest <:+ text) :
    Ends text (GotOn text reading input) (reading.readRepeat c input) := by
  unfold readRepeat
  dsimp only
  split
  · exact ends_repeatLast _ _
  · split
    · exact ends_repeatLast _ _
    · split
      · exact ends_repeatLast _ _
      · split
        · exact gotOn_of_eq List.suffix_rfl rfl
        · refine (ends_bracedBounds inside).bind fun found onward => ?_
          split
          · exact (ends_repeatLast _ _).mono fun _ gotOn => gotOn.from (onward _ _ rfl)
          · exact gotOn_of_eq List.suffix_rfl rfl

/-! ## Groups -/

theorem ends_enterCapture (start : Nat) (name : Option (List Char)) :
    Ends text (GotOn text reading input) (reading.enterCapture input start name) := by
  unfold enterCapture
  split
  · exact gotOn_of_eq List.suffix_rfl rfl
  · split
    · exact ends_fault _ _
    · exact gotOn_of_eq List.suffix_rfl rfl

theorem ends_readName (closing : Char) :
    Ends text (Onward input) (readName input closing) := by
  refine (Input.ends_takeUntil _ _).bind fun ⟨name, behind⟩ onward => ?_
  dsimp only
  split
  · exact onward
  · exact ends_fault _ _

theorem ends_readNamedAgain :
    Ends text (GotOn text reading input) (reading.readNamedAgain input) := by
  refine (ends_readName _).bind fun ⟨name, behind⟩ onward => ?_
  dsimp only
  split
  · exact ends_fault _ _
  · split
    · exact ends_fault _ _
    · exact (ends_pushAgain _).mono fun _ gotOn => gotOn.from onward

theorem ends_readNamed (start : Nat) :
    Ends text (GotOn text reading input) (reading.readNamed start input) := by
  refine Input.ends_next?.bind fun next stands => ?_
  split
  · exact ends_fault _ _
  · rename_i behind
    have later : behind.rest <:+ input.rest := ⟨_, (stands _ _ rfl).symm⟩
    refine (ends_readName _).bind fun ⟨name, inside⟩ onward => ?_
    exact (ends_enterCapture _ _).mono fun _ gotOn => gotOn.from (onward.trans later)
  · rename_i behind
    have later : behind.rest <:+ input.rest := ⟨_, (stands _ _ rfl).symm⟩
    exact ends_readNamedAgain.mono fun _ gotOn => gotOn.from later
  · exact ends_fault _ _

theorem ends_readBehind (start : Nat) :
    Ends text (GotOn text reading input) (reading.readBehind start input) := by
  refine Input.ends_next?.bind fun next stands => ?_
  split
  · exact ends_fault _ _
  · exact gotOn_of_eq ⟨_, (stands _ _ rfl).symm⟩ rfl
  · exact gotOn_of_eq ⟨_, (stands _ _ rfl).symm⟩ rfl
  · exact ends_fault _ _

theorem ends_branchIndex (name : List Char) (place : Nat) :
    Ends text (fun _ => True) (reading.branchIndex name place) := by
  unfold branchIndex
  split
  · split
    · trivial
    · exact ends_fault _ _
  · split
    · exact ends_fault _ _
    · exact ends_fault _ _
    · split
      · exact ends_fault _ _
      · split
        · trivial
        · trivial

theorem ends_readBranch (start : Nat) :
    Ends text (GotOn text reading input) (reading.readBranch start input) := by
  refine (Input.ends_takeUntil _ _).bind fun ⟨name, behind⟩ onward => ?_
  refine (ends_branchIndex _ _).bind fun ⟨index, mentioned⟩ _ => ?_
  exact (ends_checkLookbehind _ _).bind fun _ _ => gotOn_of_eq onward rfl

/-- Flags for the whole expression are read behind a parenthesis and a question mark. -/
theorem ends_readFlags
    {first : Char}
    (start : Nat)
    (opened : ['(', '?'] <:+: text)
    (member : first ∈ text)
    (inside : input.rest <:+ text) :
    Ends text (GotOn text reading input) (reading.readFlags first start input) := by
  refine (ends_flagList member inside).bind fun ⟨list, behind⟩ ⟨onward, named⟩ => ?_
  rcases list with on | ⟨on, off⟩
  · dsimp only
    split
    · refine ⟨onward, fun flag among => ?_⟩
      rcases List.mem_append.mp among with new | old
      · exact .inr ⟨opened, named on rfl flag new⟩
      · exact .inl old
    · exact ends_fault _ _
  · exact gotOn_of_eq onward rfl

theorem ends_readExtension
    (start : Nat)
    (opened : ['(', '?'] <:+: text)
    (inside : input.rest <:+ text) :
    Ends text (GotOn text reading input) (reading.readExtension start input) := by
  refine Input.ends_next?.bind fun next stands => ?_
  split
  · exact ends_fault _ _
  · rename_i token behind
    have whole := stands _ _ rfl
    have later : behind.rest <:+ input.rest := ⟨_, whole.symm⟩
    split
    · exact (ends_readNamed _).mono fun _ gotOn => gotOn.from later
    · exact gotOn_of_eq later rfl
    · exact gotOn_of_eq later rfl
    · exact gotOn_of_eq later rfl
    · exact gotOn_of_eq later rfl
    · exact (ends_readBehind _).mono fun _ gotOn => gotOn.from later
    · exact (ends_readBranch _).mono fun _ gotOn => gotOn.from later
    · refine (Input.ends_skipPast _ _).bind fun found onward => ?_
      split
      · exact gotOn_of_eq ((onward _ rfl).trans later) rfl
      · exact ends_fault _ _
    · rename_i c _ _ _ _ _ _ _ _
      split
      · have member : c ∈ text := inside.subset (by simp [whole, Token.text])
        exact (ends_readFlags _ opened member (later.trans inside)).mono fun _ gotOn =>
          gotOn.from later
      · exact ends_fault _ _
    · exact ends_fault _ _

theorem ends_readOpening (inside : '(' :: input.rest <:+ text) :
    Ends text (GotOn text reading input) (reading.readOpening input) := by
  refine (Input.ends_take? _).bind fun found stands => ?_
  split
  · rename_i behind
    have whole := stands _ rfl
    have later : behind.rest <:+ input.rest := ⟨['?'], whole.symm⟩
    have opened : ['(', '?'] <:+: text := by
      rw [whole] at inside
      exact .trans ⟨[], behind.rest, rfl⟩ inside.isInfix
    have entered : behind.rest <:+ text := later.trans (.trans ⟨['('], rfl⟩ inside)
    exact (ends_readExtension _ opened entered).mono fun _ gotOn => gotOn.from later
  · exact ends_enterCapture _ _

theorem ends_readBar (mark : Nat) :
    Ends text (GotOn text reading input) (reading.readBar mark input) := by
  unfold readBar
  split
  · split
    · exact gotOn_of_eq List.suffix_rfl rfl
    · exact ends_fault _ _
  · exact gotOn_of_eq List.suffix_rfl rfl

/-- Where a reading is in a text: what is still to be read stands at its end, and the flags met for
the whole expression are named in it. -/
structure Sourced (text : List Char) (reading : Reading) : Prop where
  input : reading.input.rest <:+ text
  flags : ∀ flag ∈ reading.everywhere, ['(', '?'] <:+: text ∧ Named text flag

theorem ofLetter?_eq_ascii {c : Char} (letter : InlineFlag.ofLetter? c = some .ascii) :
    c = 'a' := by
  unfold InlineFlag.ofLetter? at letter
  split at letter <;> simp_all

theorem ofLetter?_eq_unicode {c : Char} (letter : InlineFlag.ofLetter? c = some .unicode) :
    c = 'u' := by
  unfold InlineFlag.ofLetter? at letter
  split at letter <;> simp_all

theorem Sourced.ends_checkClasses (sourced : Sourced text reading) :
    Ends text (fun _ => True) reading.checkClasses := by
  unfold checkClasses
  split
  · rename_i both
    simp only [Bool.and_eq_true, List.contains_iff_mem] at both
    obtain ⟨opened, a, inA, small⟩ := sourced.flags _ both.1
    obtain ⟨-, u, inU, full⟩ := sourced.flags _ both.2
    rw [ofLetter?_eq_ascii small] at inA
    rw [ofLetter?_eq_unicode full] at inU
    exact .breaks (.classes opened inA inU)
  · trivial

theorem Sourced.ends_readClosing (sourced : Sourced text reading) (mark : Nat) :
    Ends text (GotOn text reading input) (reading.readClosing mark input) := by
  unfold readClosing
  split
  · exact gotOn_of_eq List.suffix_rfl rfl
  · exact sourced.ends_checkClasses.bind fun _ _ => ends_fault _ _

theorem ends_skipComment :
    Ends text (GotOn text reading input) (reading.skipComment input) := by
  refine (Input.ends_skipPast _ _).bind fun found onward => ?_
  split
  · exact gotOn_of_eq (onward _ rfl) rfl
  · exact gotOn_of_eq List.nil_suffix rfl

theorem ends_readPlain (c : Char) (inside : c :: input.rest <:+ text) :
    Ends text (GotOn text reading input) (reading.readPlain c input) := by
  unfold readPlain
  dsimp only
  split
  · exact ends_readOpening inside
  · exact ends_readClass
  · exact gotOn_of_eq List.suffix_rfl rfl
  · exact gotOn_of_eq List.suffix_rfl rfl
  · exact gotOn_of_eq List.suffix_rfl rfl
  · split
    · exact ends_readRepeat _ (.trans ⟨[_], rfl⟩ inside)
    · exact gotOn_of_eq List.suffix_rfl rfl

theorem Sourced.next
    {next : Reading}
    (sourced : Sourced text reading)
    (inside : input.rest <:+ text)
    (gotOn : GotOn text reading input next) :
    Sourced text next where
  input := gotOn.onward.trans inside
  flags flag member := (gotOn.flags flag member).elim (sourced.flags flag) id

/-- A step stays in the text, and fails for a reason in it only. -/
theorem Sourced.ends_step
    {token : Token}
    (sourced : Sourced text reading)
    (peeked : reading.input.peek? = some token) :
    Ends text (Sourced text) (reading.step token) := by
  unfold step
  dsimp only
  -- A bar or a closing parenthesis that does not fit is complained of before it is taken.
  split_ifs
  · exact (sourced.ends_readClosing _).mono fun _ => sourced.next sourced.input
  · exact (ends_readBar _).mono fun _ => sourced.next sourced.input
  · refine (Input.ends_drop _).bind fun behind dropped => ?_
    have whole := Input.rest_of_peek? peeked
    rw [← dropped] at whole
    have inside : token.text ++ behind.rest <:+ text := whole ▸ sourced.input
    have later : behind.rest <:+ text := .trans ⟨_, rfl⟩ inside
    have on (next : Reading) : GotOn text reading behind next → Sourced text next :=
      sourced.next later
    split
    · exact (sourced.ends_readClosing _).mono on
    · exact (ends_readBar _).mono on
    · exact (ends_readEscape _).mono on
    · split
      · exact on _ (gotOn_of_eq List.suffix_rfl rfl)
      · split
        · exact ends_skipComment.mono on
        · exact (ends_readPlain _ inside).mono on

/-- Reading on stays in the text, and fails for a reason in it only. -/
theorem Sourced.ends_run
    (sourced : Sourced text reading)
    (steps : Nat) :
    Ends text (Sourced text) (reading.run steps) := by
  induction steps generalizing reading with
  | zero => exact sourced
  | succ steps inductionHypothesis =>
      unfold run
      split
      · exact sourced
      · rename_i token peeked
        rcases (sourced.ends_step peeked).cases with ⟨next, done, stays⟩ |
          ⟨error, failed, explained⟩
        · rw [done]
          exact inductionHypothesis stays
        · rw [failed]
          exact explained

theorem Sourced.ends_finish (sourced : Sourced text reading) :
    Ends text (fun _ => True) reading.finish := by
  unfold finish
  split
  · exact ends_fault _ _
  · refine sourced.ends_checkClasses.bind fun _ _ => ?_
    have mentioned : Ends text (fun _ => True) reading.checkMentioned := by
      unfold checkMentioned
      split
      · exact ends_fault _ _
      · trivial
    refine mentioned.bind fun _ _ => ?_
    dsimp only
    split
    · exact .fault _ _
    · trivial

end Steps

end Reading

/-- An expression that cannot be compiled has a fault, digits that spell no bound, or flags that ask
for both kinds of classes. -/
theorem ends_compile (flags : Flags) (source : List Char) :
    Ends source (fun _ => True) (compile flags source) := by
  refine Input.ends_checked.bind fun input same => ?_
  have whole : input.rest = source := congrArg Input.rest same
  have sourced : Reading.Sourced source
      { input := input, level := { opener := .whole, start := 0, flags := flags } } :=
    ⟨whole ▸ List.suffix_rfl, nofun⟩
  refine (sourced.ends_run _).bind fun reading read => ?_
  exact read.ends_finish.bind fun _ _ => trivial

end NoticeScan.Regex
