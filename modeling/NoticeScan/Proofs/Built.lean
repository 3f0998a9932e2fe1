import NoticeScan.Proofs.Actions
import NoticeScan.Scan.Scanner

/-!
# Built scanners

What the scanner that is built from a rule set consists of: the patterns of the rule set, compiled
one by one and in order, and slots that belong to groups of the composite expression.
-/

namespace NoticeScan.Regex

/-! ## The numbers of named groups -/

/-- Every name belongs to a group that has been met. -/
def Groups.Numbered (groups : Groups) : Prop :=
  0 < groups.widths.size ∧
    ∀ name ∈ groups.names, 0 < name.2 ∧ name.2 < groups.widths.size

namespace Groups.Numbered

theorem of_sameSize
    {groups other : Groups}
    (numbered : groups.Numbered)
    (sameNames : other.names = groups.names)
    (sameSize : other.widths.size = groups.widths.size) :
    other.Numbered := by
  unfold Groups.Numbered
  rw [sameNames, sameSize]
  exact numbered

theorem push
    {groups : Groups}
    (numbered : groups.Numbered)
    (names : List (List Char × Nat))
    (new : ∀ name ∈ names, name ∈ groups.names ∨ name.2 = groups.widths.size)
    (width : Option Width) :
    Groups.Numbered { widths := groups.widths.push width, names := names } := by
  refine ⟨by simp, ?_⟩
  intro name member
  simp only [Array.size_push]
  rcases new name member with old | last
  · have bounds := numbered.2 name old
    exact ⟨bounds.1, Nat.lt_succ_of_lt bounds.2⟩
  · have positive := numbered.1
    omega

theorem enterCapture
    {reading next : Reading}
    {input : Input}
    {start : Nat}
    {name : Option (List Char)}
    (numbered : reading.groups.Numbered)
    (entered : reading.enterCapture input start name = .ok next) :
    next.groups.Numbered := by
  unfold Reading.enterCapture at entered
  cases name with
  | none =>
      cases entered
      exact numbered.push _ (fun _ old => Or.inl old) none
  | some name =>
      simp only at entered
      split at entered
      · cases entered
      · cases entered
        apply numbered.push
        intro other member
        rcases List.mem_append.mp member with old | new
        · exact Or.inl old
        · exact Or.inr (by rw [List.mem_singleton.mp new])

theorem acts
    {reading next : Reading}
    {mark : Nat}
    {behind : Input}
    {action : Action}
    (numbered : reading.groups.Numbered)
    (acts : Acts reading mark behind action next) :
    next.groups.Numbered := by
  cases acts with
  | skip => exact numbered
  | item item => exact numbered
  | repeating low high greed entry before place body entries repeatable => exact numbered
  | opening opener flags kind sameFlags => exact numbered
  | capture name next entered => exact numbered.enterCapture entered
  | look isBehind negated => exact numbered
  | numbered index width next read =>
      obtain ⟨item, rfl⟩ := Reading.pushNumbered_eq read
      exact numbered
  | named name index next known read =>
      obtain ⟨item, rfl⟩ := Reading.pushAgain_eq read
      exact numbered
  | branch name place index mentioned found => exact numbered
  | everywhere on some whole noBranches noEntries => exact numbered
  | bar first => exact numbered
  | close level outer opened =>
      unfold Reading.closeGroup Reading.add
      simp only
      split
      · exact numbered.of_sameSize rfl (by simp)
      · exact numbered

theorem run
    {steps : Nat}
    {reading last : Reading}
    (numbered : reading.groups.Numbered)
    (ran : Reading.run steps reading = .ok last) :
    last.groups.Numbered := by
  induction steps generalizing reading with
  | zero =>
      cases ran
      exact numbered
  | succ steps inductionHypothesis =>
      unfold Reading.run at ran
      cases peeked : reading.input.peek? with
      | none =>
          simp only [peeked] at ran
          cases ran
          exact numbered
      | some token =>
          simp only [peeked] at ran
          cases stepped : reading.step token with
          | error error => simp [stepped] at ran
          | ok next =>
              simp only [stepped] at ran
              obtain ⟨input, _, action, behind, _, acts⟩ := Reading.step_obeys stepped
              exact inductionHypothesis (numbered.acts acts) ran

end Groups.Numbered

end NoticeScan.Regex

namespace NoticeScan

open NoticeScan.Regex NoticeScan.Scan

/-- The named groups of an expression are among its groups. -/
theorem Regex.names_numbered
    {flags : Flags}
    {source : List Char}
    {regex : Regex}
    (compiled : Regex.compile flags source = .ok regex) :
    ∀ name ∈ regex.names, name.2 ∈ List.range' 1 regex.groupCount := by
  unfold Regex.compile at compiled
  obtain ⟨input, _, compiled⟩ := bind_eq_ok.mp compiled
  obtain ⟨reading, ran, compiled⟩ := bind_eq_ok.mp compiled
  obtain ⟨items, _, compiled⟩ := bind_eq_ok.mp compiled
  cases compiled
  have start : Groups.Numbered {} := ⟨by decide, by simp⟩
  have numbered : reading.groups.Numbered := Groups.Numbered.run start ran
  intro name member
  have bounds := numbered.2 name member
  rw [List.mem_range'_1]
  simp only
  omega

namespace Scanner

/-! ## The parts of a scanner -/

/-- What a scanner is made of. -/
structure Built (rules : RuleSet) (limits : Pattern.Limits) (scanner : Scanner) : Prop where
  licenses : ∀ role,
    compileList limits (rules.get (.licenses role)) = .ok (scanner.licenses role)
  owners : ∀ role, compileList limits (rules.get (.owners role)) = .ok (scanner.owners role)
  exclusions : compileExclusions rules.exclusions = .ok scanner.exclusions
  composite : Regex.compile Pattern.flags scanner.expression = .ok scanner.composite
  slots : slotTable scanner.composite.names = .ok scanner.slots

theorem mapError_eq_ok
    {ε ε' α : Type}
    {f : ε → ε'}
    {result : Except ε α}
    {value : α} :
    result.mapError f = .ok value ↔ result = .ok value := by
  cases result with
  | error error => simp [Except.mapError]
  | ok other => simp [Except.mapError]

theorem built_of_build
    {rules : RuleSet}
    {limits : Pattern.Limits}
    {window threshold : Int}
    {scanner : Scanner}
    (built : build rules limits window threshold = .ok scanner) :
    Built rules limits scanner := by
  unfold build at built
  obtain ⟨firstLicenses, firstLicensesEq, built⟩ := bind_eq_ok.mp built
  obtain ⟨thirdLicenses, thirdLicensesEq, built⟩ := bind_eq_ok.mp built
  obtain ⟨forbiddenLicenses, forbiddenLicensesEq, built⟩ := bind_eq_ok.mp built
  obtain ⟨firstOwners, firstOwnersEq, built⟩ := bind_eq_ok.mp built
  obtain ⟨thirdOwners, thirdOwnersEq, built⟩ := bind_eq_ok.mp built
  obtain ⟨forbiddenOwners, forbiddenOwnersEq, built⟩ := bind_eq_ok.mp built
  obtain ⟨words, wordsEq, built⟩ := bind_eq_ok.mp built
  obtain ⟨exclusions, exclusionsEq, built⟩ := bind_eq_ok.mp built
  obtain ⟨composite, compositeEq, built⟩ := bind_eq_ok.mp built
  obtain ⟨slots, slotsEq, built⟩ := bind_eq_ok.mp built
  cases built
  refine ⟨?_, ?_, exclusionsEq, mapError_eq_ok.mp compositeEq, slotsEq⟩
  · intro role
    cases role with
    | first => exact firstLicensesEq
    | third => exact thirdLicensesEq
    | forbidden => exact forbiddenLicensesEq
  · intro role
    cases role with
    | first => exact firstOwnersEq
    | third => exact thirdOwnersEq
    | forbidden => exact forbiddenOwnersEq

/-- The composite expression of a scanner is made of its patterns and of the contract words. -/
theorem expression_of_build
    {rules : RuleSet}
    {limits : Pattern.Limits}
    {window threshold : Int}
    {scanner : Scanner}
    (built : build rules limits window threshold = .ok scanner) :
    scanner.window = window ∧
      ∃ words, compileList limits contractWords = .ok words ∧
        scanner.expression = Ingredients.composite
          { limits := limits
            licenses := bodies scanner.licenses
            owners := bodies scanner.owners
            words := words.map (·.body) } := by
  unfold build at built
  iterate 6 obtain ⟨_, _, built⟩ := bind_eq_ok.mp built
  obtain ⟨words, wordsEq, built⟩ := bind_eq_ok.mp built
  iterate 3 obtain ⟨_, _, built⟩ := bind_eq_ok.mp built
  cases built
  exact ⟨rfl, words, wordsEq, rfl⟩

theorem threshold_of_build
    {rules : RuleSet}
    {limits : Pattern.Limits}
    {window threshold : Int}
    {scanner : Scanner}
    (built : build rules limits window threshold = .ok scanner) :
    scanner.threshold = threshold := by
  unfold build at built
  iterate 10 obtain ⟨_, _, built⟩ := bind_eq_ok.mp built
  cases built
  rfl

/-- A scanner that looks for what a given expression finds. -/
def lookingFor (rules : RuleSet) (expression : String) : Except BuildError Scanner := do
  let firstLicenses ← compileList {} rules.firstLicenses
  let thirdLicenses ← compileList {} rules.thirdLicenses
  let forbiddenLicenses ← compileList {} rules.forbiddenLicenses
  let firstOwners ← compileList {} rules.firstOwners
  let thirdOwners ← compileList {} rules.thirdOwners
  let forbiddenOwners ← compileList {} rules.forbiddenOwners
  let exclusions ← compileExclusions rules.exclusions
  let composite ← (Regex.compile Pattern.flags expression.toList).mapError .composite
  let slots ← slotTable composite.names
  return {
    rules := rules
    licenses := byRole firstLicenses thirdLicenses forbiddenLicenses
    owners := byRole firstOwners thirdOwners forbiddenOwners
    exclusions := exclusions
    expression := expression.toList
    composite := composite
    slots := slots }

theorem built_of_lookingFor
    {rules : RuleSet}
    {expression : String}
    {scanner : Scanner}
    (built : lookingFor rules expression = .ok scanner) :
    Built rules {} scanner := by
  unfold lookingFor at built
  obtain ⟨firstLicenses, firstLicensesEq, built⟩ := bind_eq_ok.mp built
  obtain ⟨thirdLicenses, thirdLicensesEq, built⟩ := bind_eq_ok.mp built
  obtain ⟨forbiddenLicenses, forbiddenLicensesEq, built⟩ := bind_eq_ok.mp built
  obtain ⟨firstOwners, firstOwnersEq, built⟩ := bind_eq_ok.mp built
  obtain ⟨thirdOwners, thirdOwnersEq, built⟩ := bind_eq_ok.mp built
  obtain ⟨forbiddenOwners, forbiddenOwnersEq, built⟩ := bind_eq_ok.mp built
  obtain ⟨exclusions, exclusionsEq, built⟩ := bind_eq_ok.mp built
  obtain ⟨composite, compositeEq, built⟩ := bind_eq_ok.mp built
  obtain ⟨slots, slotsEq, built⟩ := bind_eq_ok.mp built
  cases built
  refine ⟨?_, ?_, exclusionsEq, mapError_eq_ok.mp compositeEq, slotsEq⟩
  · intro role
    cases role with
    | first => exact firstLicensesEq
    | third => exact thirdLicensesEq
    | forbidden => exact forbiddenLicensesEq
  · intro role
    cases role with
    | first => exact firstOwnersEq
    | third => exact thirdOwnersEq
    | forbidden => exact forbiddenOwnersEq

theorem mapM_eq_ok
    {ε α β : Type}
    {f : α → Except ε β}
    {list : List α}
    {made : List β}
    (mapped : list.mapM f = .ok made) :
    List.Forall₂ (fun item result => f item = .ok result) list made := by
  induction list generalizing made with
  | nil =>
      rw [List.mapM_nil] at mapped
      cases mapped
      exact .nil
  | cons item rest inductionHypothesis =>
      rw [List.mapM_cons] at mapped
      obtain ⟨result, first, mapped⟩ := bind_eq_ok.mp mapped
      obtain ⟨results, others, mapped⟩ := bind_eq_ok.mp mapped
      cases mapped
      exact .cons first (inductionHypothesis others)

/-- A slot belongs to a group of the composite expression. -/
theorem Built.slot_numbered
    {rules : RuleSet}
    {limits : Pattern.Limits}
    {scanner : Scanner}
    (built : Built rules limits scanner)
    {group : Nat}
    {slot : Slot}
    (named : scanner.slot? group = some slot) :
    group ∈ List.range' 1 scanner.composite.groupCount := by
  have numbered := Regex.names_numbered built.composite
  have table := mapM_eq_ok built.slots
  unfold slot? at named
  generalize scanner.composite.names = names at numbered table
  generalize scanner.slots = slots at named table
  induction table with
  | nil => simp at named
  | @cons name entry names entries first _ inductionHypothesis =>
      obtain ⟨index, other⟩ := entry
      have same : index = name.2 := by
        simp only at first
        split at first
        · cases first
          rfl
        · cases first
      rw [List.lookup_cons] at named
      split at named
      · rename_i found
        rw [eq_of_beq found, same]
        exact numbered name List.mem_cons_self
      · refine inductionHypothesis ?_ named
        exact fun other member => numbered other (List.mem_cons_of_mem _ member)

/-! ## What a rule set describes -/

/-- Whether one of the patterns, when it is compiled, describes a text as a whole. -/
def Describes (limits : Pattern.Limits) (patterns : List String) (text : List Char) : Prop :=
  ∃ pattern ∈ patterns, ∃ compiled,
    Pattern.compile limits pattern = .ok compiled ∧ compiled.describes text.toArray = true

theorem describes_iff
    {limits : Pattern.Limits}
    {patterns : List String}
    {made : List Pattern.Compiled}
    (compiled : compileList limits patterns = .ok made)
    (text : List Char) :
    (made.any fun pattern => pattern.describes text.toArray) = true ↔
      Describes limits patterns text := by
  have each := mapM_eq_ok compiled
  unfold Describes
  clear compiled
  induction each with
  | nil => simp
  | cons first _ inductionHypothesis =>
      have known := mapError_eq_ok.mp first
      simp only [List.any_cons, Bool.or_eq_true, inductionHypothesis, List.mem_cons,
        exists_eq_or_imp, known, Except.ok.injEq, exists_eq_left']

variable {rules : RuleSet} {limits : Pattern.Limits} {scanner : Scanner}

/-- The parties are asked for in turn. -/
theorem describing?_eq
    (patterns : Role → List Pattern.Compiled)
    (text : List Char) :
    describing? patterns text =
      if (patterns .forbidden).any (·.describes text.toArray) then some .forbidden
      else if (patterns .third).any (·.describes text.toArray) then some .third
      else if (patterns .first).any (·.describes text.toArray) then some .first
      else none := by
  unfold describing? askingOrder
  simp only [List.find?_cons, List.find?_nil]
  cases (patterns .forbidden).any (·.describes text.toArray) <;>
    cases (patterns .third).any (·.describes text.toArray) <;>
      cases (patterns .first).any (·.describes text.toArray) <;> rfl

theorem Built.knownLicense?_eq_none
    (built : Built rules limits scanner)
    (text : List Char) :
    scanner.knownLicense? text = none ↔
      ∀ role, ¬ Describes limits (rules.get (.licenses role)) text := by
  simp only [← describes_iff (built.licenses _) text]
  unfold knownLicense?
  rw [describing?_eq]
  constructor
  · intro none role
    cases role <;> grind
  · intro never
    rw [if_neg (never .forbidden), if_neg (never .third), if_neg (never .first)]

theorem Built.knownLicense?_eq_forbidden
    (built : Built rules limits scanner)
    (text : List Char) :
    scanner.knownLicense? text = some .forbidden ↔
      Describes limits rules.forbiddenLicenses text := by
  have described := describes_iff (built.licenses .forbidden) text
  simp only [RuleSet.get] at described
  rw [← described]
  unfold knownLicense?
  rw [describing?_eq]
  grind

end Scanner

end NoticeScan
