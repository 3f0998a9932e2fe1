import NoticeScan.Proofs.Checked
import NoticeScan.Proofs.Composite
import NoticeScan.Proofs.ScanRun

/-!
# Building a scanner

A scanner can be built from a rule set in which a check finds no issue, as long as the inline form
of every pattern is an expression by itself. All groups of its composite expression have slots, so
no scan fails for want of one.
-/

namespace NoticeScan

open NoticeScan.Regex NoticeScan.Pattern NoticeScan.Scan NoticeScan.Scanner

/-! ## Contract words -/

namespace Scan

set_option maxRecDepth 100000 in
/-- Nothing is wrong with the contract words. They are closed, and take characters. -/
theorem contractWords_closed :
    ((contractWords.map String.toList).all fun word =>
      (findings word).isEmpty && eachTakes Pattern.flags (widen {} word)) = true := by
  delta contractWords publicLicense doneBy capitalizedWords plainWord handle upperName properName
    caseGroup times upperChar lowerChar letter
  -- The texts are spelled out first, since taking literals apart is slow.
  simp only [List.map_cons, List.map_nil, String.toList_append, String.reduceToList]
  simp only [String.toList_ofList]
  decide +kernel

theorem contractWord_plain
    {word : String}
    (member : word ∈ contractWords) :
    findings word.toList = [] ∧ PlainTaking Pattern.flags (widen {} word.toList) := by
  have fine := List.all_eq_true.mp contractWords_closed _ (List.mem_map_of_mem member)
  obtain ⟨sound, takes⟩ := Bool.and_eq_true_iff.mp fine
  exact ⟨List.isEmpty_iff.mp sound, plainTaking_of_eachTakes takes rfl⟩

end Scan

/-! ## Compiled lists -/

theorem isMade_mapM
    {ι α : Type}
    {f : ι → Except BuildError α}
    {list : List ι}
    (each : ∀ item ∈ list, IsMade (f item)) :
    IsMade (list.mapM f) := by
  have settled : Settled (list.flatMap fun _ => []) IsMade (list.mapM f) :=
    Settled.mapM fun item member => Or.inr ⟨rfl, each item member⟩
  rcases settled with ⟨issue, member, -⟩ | ⟨-, made⟩
  · obtain ⟨item, -, none⟩ := List.mem_flatMap.mp member
    exact absurd none List.not_mem_nil
  · exact made

theorem bodies_of_compileList
    {good : Expr → Prop}
    {patterns : List String}
    {made : List Compiled}
    (compiled : compileList {} patterns = .ok made)
    (each : ∀ pattern ∈ patterns, ∀ one, Pattern.compile {} pattern = .ok one → good one.body) :
    ∀ body ∈ made.map (·.body), good body := by
  have pairs := mapM_eq_ok compiled
  clear compiled
  induction pairs with
  | nil => exact fun body none => absurd none List.not_mem_nil
  | cons first _ inductionHypothesis =>
      obtain ⟨here, later⟩ := List.forall_mem_cons.mp each
      rw [List.map_cons, List.forall_mem_cons]
      exact ⟨here _ (mapError_eq_ok.mp first), inductionHypothesis later⟩

theorem contractWords_made : IsMade (compileList {} contractWords) := by
  apply isMade_mapM
  intro word member
  obtain ⟨sound, takes⟩ := contractWord_plain member
  obtain ⟨made, compiled⟩ := compile_of_plain sound takes.plain
  exact ⟨made, mapError_eq_ok.mpr compiled⟩

theorem taking_contractWords
    {words : List Compiled}
    (made : compileList {} contractWords = .ok words) :
    ∀ body ∈ words.map (·.body), PlainTaking Pattern.flags body := by
  refine bodies_of_compileList made ?_
  intro word member one compiled
  rw [(spec_of_compile compiled).1]
  exact (contractWord_plain member).2

/-- The inline form of every pattern of a rule set is an expression by itself. -/
def RuleSet.SelfContained (rules : RuleSet) : Prop :=
  ∀ place ∈ Section.all, place ≠ .exclusions →
    ∀ pattern ∈ rules.get place, Pattern.SelfContained {} pattern

instance (rules : RuleSet) : Decidable rules.SelfContained :=
  inferInstanceAs (Decidable (∀ place ∈ Section.all, _))

theorem RuleSet.SelfContained.licenses
    {rules : RuleSet}
    (contained : rules.SelfContained)
    (role : Role) :
    ∀ pattern ∈ rules.get (.licenses role), Pattern.SelfContained {} pattern :=
  contained _ (by cases role <;> simp [Section.all]) (by cases role <;> simp)

theorem RuleSet.SelfContained.owners
    {rules : RuleSet}
    (contained : rules.SelfContained)
    (role : Role) :
    ∀ pattern ∈ rules.get (.owners role), Pattern.SelfContained {} pattern :=
  contained _ (by cases role <;> simp [Section.all]) (by cases role <;> simp)

theorem plain_bodies
    {lists : Role → List String}
    {made : Role → List Compiled}
    (compiled : ∀ role, compileList {} (lists role) = .ok (made role))
    (contained : ∀ role, ∀ pattern ∈ lists role, Pattern.SelfContained {} pattern) :
    ∀ body ∈ bodies made, Plain Pattern.flags body := by
  intro body member
  obtain ⟨role, -, among⟩ := List.mem_flatMap.mp member
  refine bodies_of_compileList (compiled role) ?_ body among
  intro pattern listed one accepted
  exact (contained role pattern listed).plain accepted

/-! ## Slots -/

/-- Whether all groups of an expression with the given names have slots. -/
def allSlotted (names : List (List Char × Nat)) : Bool :=
  match slotTable names with
  | .ok slots => (List.range' 1 names.length).all fun group => (slots.lookup group).isSome
  | .error _ => false

theorem slotted_composite (parts : Ingredients) :
    allSlotted (enlistAll [] (compositeNames parts)) = true := by
  rw [compositeNames]
  cases parts.licenses.isEmpty with
  | true => decide +kernel
  | false => decide +kernel

/-- All groups of a composite expression have slots. -/
theorem exists_slots (parts : Ingredients) :
    ∃ slots, slotTable (enlistAll [] (compositeNames parts)) = .ok slots ∧
      ∀ group ∈ List.range' 1 (compositeNames parts).length,
        ∃ slot, slots.lookup group = some slot := by
  have slotted := slotted_composite parts
  rw [allSlotted, length_enlistAll_nil] at slotted
  split at slotted
  · rename_i slots table
    refine ⟨slots, table, fun group numbered => ?_⟩
    exact Option.isSome_iff_exists.mp (List.all_eq_true.mp slotted group numbered)
  · cases slotted

/-- Every group has a slot. -/
def Scanner.Slotted (scanner : Scanner) : Prop :=
  ∀ group ∈ List.range' 1 scanner.composite.groupCount, ∃ slot, scanner.slot? group = some slot

/-! ## The last steps -/

theorem bind_eq_error
    {ε α β : Type}
    {first : Except ε α}
    {second : α → Except ε β}
    {error : ε}
    (failed : (first >>= second) = .error error) :
    first = .error error ∨ ∃ value, second value = .error error := by
  cases first with
  | error other =>
      cases failed
      exact Or.inl rfl
  | ok value => exact Or.inr ⟨value, failed⟩

theorem slotTable_ne_pattern
    (names : List (List Char × Nat))
    (failure : Failure) :
    slotTable names ≠ .error (.pattern failure) := by
  rw [slotTable]
  induction names with
  | nil => exact nofun
  | cons name rest inductionHypothesis =>
      intro failed
      rw [List.mapM_cons] at failed
      rcases bind_eq_error failed with first | ⟨entry, later⟩
      · dsimp only at first
        split at first
        · cases first
        · cases first
      · rcases bind_eq_error later with others | ⟨entries, last⟩
        · exact inductionHypothesis others
        · cases last

/-- Behind the patterns, building fails for none of them. -/
theorem assemble_ne_pattern
    (rules : RuleSet)
    (licenses owners : Role → List Compiled)
    (words : List Compiled)
    (exclusions : List Regex)
    (failure : Failure) :
    assemble rules licenses owners words exclusions ≠ .error (.pattern failure) := by
  intro failed
  rcases bind_eq_error failed with composite | ⟨regex, later⟩
  · revert composite
    generalize Regex.compile _ _ = result
    intro composite
    cases result with
    | ok made => cases composite
    | error error => cases composite
  · rcases bind_eq_error later with table | ⟨slots, last⟩
    · exact slotTable_ne_pattern _ failure table
    · cases last

/-- If all inline forms can stand anywhere, building succeeds, and every group has a slot. -/
theorem assemble_slotted
    {rules : RuleSet}
    {licenses owners : Role → List Compiled}
    {words : List Compiled}
    {exclusions : List Regex}
    (plainLicenses : ∀ body ∈ bodies licenses, Plain Pattern.flags body)
    (plainOwners : ∀ body ∈ bodies owners, Plain Pattern.flags body)
    (some : words ≠ [])
    (plainWords : ∀ body ∈ words.map (·.body), PlainTaking Pattern.flags body) :
    ∃ scanner, assemble rules licenses owners words exclusions = .ok scanner ∧
      scanner.Slotted := by
  let parts : Ingredients :=
    { limits := {}
      licenses := bodies licenses
      owners := bodies owners
      words := words.map (·.body) }
  have sound : parts.Sound :=
    { usual := rfl
      licenses := plainLicenses
      owners := plainOwners
      words := plainWords
      someWords := fun none => some (List.map_eq_nil_iff.mp none) }
  obtain ⟨regex, compiled, names, count, -⟩ := compile_composite sound
  obtain ⟨slots, table, slotted⟩ := exists_slots parts
  rw [← names] at table
  rw [← count] at slotted
  exact ⟨_, bind_eq_ok.mpr ⟨regex, mapError_eq_ok.mpr compiled,
    bind_eq_ok.mpr ⟨slots, table, rfl⟩⟩, slotted⟩

/-! ## Scanning -/

section Scanning

variable {scanner : Scanner} {window : Window} {whole : List Char} {found : Regex.Found}
  {tally : Tally}

theorem Scanner.Slotted.countGroup
    (slotted : scanner.Slotted)
    {group : Nat}
    (numbered : group ∈ List.range' 1 scanner.composite.groupCount) :
    ∃ next, scanner.countGroup window whole found tally group = .ok next := by
  obtain ⟨slot, named⟩ := slotted group numbered
  rw [Scanner.countGroup, named]
  split
  · exact ⟨_, rfl⟩
  · dsimp only
    split
    · exact ⟨_, rfl⟩
    · exact ⟨_, rfl⟩

theorem Scanner.Slotted.countGroups
    (slotted : scanner.Slotted) :
    ∃ next, scanner.countGroups window whole found tally = .ok next := by
  have counted : ∀ groups : List Nat,
      (∀ group ∈ groups, group ∈ List.range' 1 scanner.composite.groupCount) →
      ∀ tally, ∃ next, groups.foldlM (scanner.countGroup window whole found) tally = .ok next := by
    intro groups numbered
    induction groups with
    | nil => exact fun tally => ⟨tally, rfl⟩
    | cons group rest inductionHypothesis =>
        intro tally
        obtain ⟨here, later⟩ := List.forall_mem_cons.mp numbered
        obtain ⟨between, first⟩ := slotted.countGroup here
        obtain ⟨next, others⟩ := inductionHypothesis later between
        refine ⟨next, ?_⟩
        rw [List.foldlM_cons]
        exact bind_eq_ok.mpr ⟨between, first, others⟩
  exact counted _ (fun group member => member) tally

theorem Scanner.Slotted.countMatch
    (slotted : scanner.Slotted) :
    ∃ result, scanner.countMatch window found tally = .ok result := by
  obtain ⟨next, counted⟩ := slotted.countGroups
  rw [Scanner.countMatch, counted]
  dsimp only
  split
  · exact ⟨_, rfl⟩
  · exact ⟨_, rfl⟩

theorem Scanner.Slotted.countFrom
    (slotted : scanner.Slotted)
    (bound : Nat)
    (search : Regex.Search) :
    ∃ result, scanner.countFrom window bound search tally = .ok result := by
  induction bound generalizing search tally with
  | zero => exact ⟨_, rfl⟩
  | succ bound inductionHypothesis =>
      rw [Scanner.countFrom]
      cases scanner.composite.next? window.text search with
      | none => exact ⟨_, rfl⟩
      | some step =>
          obtain ⟨found, after⟩ := step
          obtain ⟨⟨counted, counts⟩, counting⟩ := slotted.countMatch
          dsimp only
          rw [counting]
          dsimp only
          split
          · exact ⟨_, rfl⟩
          · exact inductionHypothesis after

/-- If every group has a slot, every scan comes to a report. -/
theorem Scanner.Slotted.scanWindow
    (slotted : scanner.Slotted)
    (window : Window) :
    ∃ report, scanner.scanWindow window = .ok report := by
  obtain ⟨⟨final, stopped⟩, counted⟩ := slotted.countFrom (Regex.matchBound window.text) {}
  rw [Scanner.scanWindow, counted]
  exact ⟨_, rfl⟩

end Scanning

/-! ## Checking and building -/

theorem contractWords_ne_nil
    {words : List Compiled}
    (made : compileList {} contractWords = .ok words) :
    words ≠ [] := by
  have same := (mapM_eq_ok made).length_eq
  rintro rfl
  cases same

/-- What building comes to, given what a check has found. -/
theorem settled_ofRules
    {rules : RuleSet}
    {issues : List RuleSet.Issue}
    (checked : rules.issues = .ok issues) :
    Settled issues
      (fun result => (∀ failure, result ≠ .error (.pattern failure)) ∧
        (rules.SelfContained → ∃ scanner, result = .ok scanner ∧ scanner.Slotted))
      (ofRules rules) := by
  apply settled_build checked contractWords_made
  intro licenses owners words exclusions madeLicenses madeOwners madeWords
  refine ⟨assemble_ne_pattern rules licenses owners words exclusions, ?_⟩
  intro contained
  apply assemble_slotted
  · exact plain_bodies madeLicenses contained.licenses
  · exact plain_bodies madeOwners contained.owners
  · exact contractWords_ne_nil madeWords
  · exact taking_contractWords madeWords

/-- What the composite expression of a scanner is made of, if the inline forms of its patterns are
expressions by themselves. -/
theorem ingredients_of_build
    {rules : RuleSet}
    {size threshold : Int}
    {scanner : Scanner}
    (made : build rules {} size threshold = .ok scanner)
    (contained : rules.SelfContained) :
    ∃ parts : Ingredients, parts.Sound ∧ parts.licenses = bodies scanner.licenses ∧
      Regex.compile Pattern.flags parts.composite = .ok scanner.composite := by
  have built := built_of_build made
  obtain ⟨-, words, madeWords, expression⟩ := expression_of_build made
  have composite := built.composite
  rw [expression] at composite
  refine ⟨_, ?_, rfl, composite⟩
  exact
    { usual := rfl
      licenses := plain_bodies built.licenses contained.licenses
      owners := plain_bodies built.owners contained.owners
      words := taking_contractWords madeWords
      someWords := fun none => contractWords_ne_nil madeWords (List.map_eq_nil_iff.mp none) }

/-- A scanner that is built from patterns whose inline forms are expressions by themselves has slots
for all groups of its composite expression. Their borders lie in order, and they capture nothing
outside of a match. -/
theorem composite_of_build
    {rules : RuleSet}
    {size threshold : Int}
    {scanner : Scanner}
    (made : build rules {} size threshold = .ok scanner)
    (contained : rules.SelfContained) :
    scanner.Slotted ∧ (∃ high, scanner.composite.node.Fits 0 high) ∧
      ∀ text, (scanner.composite.node.ways text).Le .enclosing := by
  obtain ⟨parts, sound, -, composite⟩ := ingredients_of_build made contained
  obtain ⟨regex, compiled, names, count, fits, encloses⟩ := compile_composite sound
  have same : regex = scanner.composite := Except.ok.inj (compiled.symm.trans composite)
  subst same
  obtain ⟨slots, table, slotted⟩ := exists_slots parts
  rw [← names, (built_of_build made).slots] at table
  rw [← Except.ok.inj table, ← count] at slotted
  exact ⟨slotted, ⟨_, fits⟩, encloses⟩

/-- Checking and building agree: building is refused for a pattern exactly if there are issues, and
then for one of those. Without issues, a scanner is built if the inline form of every pattern is an
expression by itself; all its groups have slots, and all its scans come to a report. -/
theorem Scanner.built_iff_noIssues
    {rules : RuleSet}
    {issues : List RuleSet.Issue}
    (checked : rules.issues = .ok issues) :
    (issues ≠ [] ↔ ∃ failure, ofRules rules = .error (.pattern failure)) ∧
      (∀ failure, ofRules rules = .error (.pattern failure) →
        ∃ issue ∈ issues, failure = .rejected issue.rejection) ∧
      (issues = [] → rules.SelfContained →
        ∃ scanner, ofRules rules = .ok scanner ∧ scanner.Slotted ∧
          ∀ window, ∃ report, scanner.scanWindow window = .ok report) := by
  rcases settled_ofRules checked with ⟨issue, member, failed⟩ | ⟨none, notPattern, contained⟩
  · have some : issues ≠ [] := List.ne_nil_of_mem member
    refine ⟨⟨fun _ => ⟨_, failed⟩, fun _ => some⟩, ?_, fun none => absurd none some⟩
    intro failure other
    rw [failed] at other
    cases other
    exact ⟨issue, member, rfl⟩
  · refine ⟨⟨fun some => absurd none some, ?_⟩, ?_, ?_⟩
    · rintro ⟨failure, failed⟩
      exact absurd failed (notPattern failure)
    · exact fun failure failed => absurd failed (notPattern failure)
    · intro _ each
      obtain ⟨scanner, built, slotted⟩ := contained each
      exact ⟨scanner, built, slotted, slotted.scanWindow⟩

/-- A rule set with words left open, with alternatives and with an exclusion. -/
def estateRules : RuleSet where
  thirdLicenses := ["Estate.*terms (?:v1|v2)", ".*estate permit"]
  forbiddenOwners := ["Jane (?:Q[.] )?Public"]
  exclusions := ["^(alpha)$"]

theorem Scanner.built_iff_noIssues_estate :
    estateRules.issues = .ok [] ∧ estateRules.SelfContained ∧
      ∃ scanner, ofRules estateRules = .ok scanner ∧ scanner.Slotted ∧
        ∀ window, ∃ report, scanner.scanWindow window = .ok report := by
  have checked : estateRules.issues = .ok [] := by decide +kernel
  have contained : estateRules.SelfContained := by decide +kernel
  exact ⟨checked, contained, (Scanner.built_iff_noIssues checked).2.2 rfl contained⟩

-- A check takes the bracket in a comment for the start of a class, and overlooks the group.
example :
    let rules : RuleSet := { thirdLicenses := ["(?#[)(foo)]"] }
    rules.issues = .ok [] ∧ ¬ rules.SelfContained := by
  decide +kernel

end NoticeScan
