import NoticeScan.Proofs.Construction
import NoticeScan.Proofs.Decorated
import NoticeScan.Proofs.KnownFirst
import NoticeScan.Proofs.WholeMatches

/-!
# Decorated licences are recognized

A scanner that knows the words of one licence recognizes them in a comment: whatever the case of
their letters is and whatever blanks and decorations stand between them, a scan reports the whole
text as that licence, and nothing else.
-/

namespace NoticeScan

open NoticeScan.Regex NoticeScan.Text NoticeScan.Pattern NoticeScan.Scan NoticeScan.Scanner

/-! ## A single licence -/

/-- The rules that know one licence and nothing else. -/
def RuleSet.ofLicense (role : Role) (pattern : String) : RuleSet :=
  RuleSet.append {} (.licenses role) [pattern]

/-- Something in the place of one role, and nothing in those of the others. -/
def onlyFor {α : Type} (role : Role) (value : α) (other : Role) : List α :=
  if other = role then [value] else []

section SingleLicense

variable {role : Role} {pattern : String}

theorem get_ofLicense
    (role : Role)
    (pattern : String)
    (other : Role) :
    (RuleSet.ofLicense role pattern).get (.licenses other) = onlyFor role pattern other ∧
      (RuleSet.ofLicense role pattern).get (.owners other) = [] := by
  cases role <;> cases other <;> exact ⟨rfl, rfl⟩

theorem exclusions_ofLicense
    (role : Role)
    (pattern : String) :
    (RuleSet.ofLicense role pattern).exclusions = [] := by
  cases role <;> rfl

theorem compileList_onlyFor
    {made : Compiled}
    (compiled : Pattern.compile {} pattern = .ok made)
    (other : Role) :
    compileList {} (onlyFor role pattern other) = .ok (onlyFor role made other) := by
  unfold onlyFor
  split
  · exact bind_eq_ok.mpr ⟨made, mapError_eq_ok.mpr compiled, rfl⟩
  · rfl

theorem bodies_onlyFor
    (role : Role)
    (made : Compiled) :
    bodies (onlyFor role made) = [made.body] := by
  cases role <;> rfl

theorem bodies_nil : bodies (fun _ => []) = [] :=
  rfl

/-- A text that the pattern of the licence describes belongs to the party of its role. -/
theorem Scanner.Built.knownLicense?_ofLicense
    {scanner : Scanner}
    {text : List Char}
    (built : Built (RuleSet.ofLicense role pattern) {} scanner)
    (described : Describes {} [pattern] text) :
    scanner.knownLicense? text = some (partyOf role) := by
  have each (other : Role) :
      ((scanner.licenses other).any fun known => known.describes text.toArray) = true ↔
        Describes {} (onlyFor role pattern other) text := by
    rw [describes_iff (built.licenses other) text, (get_ofLicense role pattern other).1]
  have known : ((scanner.licenses role).any fun known => known.describes text.toArray) = true :=
    (each role).mpr (by rwa [onlyFor, if_pos rfl])
  have unknown (other : Role) (differs : other ≠ role) :
      ((scanner.licenses other).any fun known => known.describes text.toArray) = false := by
    rw [← Bool.not_eq_true, each, onlyFor, if_neg differs]
    exact fun ⟨_, absent, _⟩ => absurd absent List.not_mem_nil
  have party : scanner.knownLicense? text =
      (askingOrder.find? fun other => decide (other = role)).map partyOf := by
    have same : (fun other : Role =>
        (scanner.licenses other).any fun known => known.describes text.toArray) =
          fun other => decide (other = role) := by
      funext other
      by_cases is : other = role
      · rw [is, known, decide_eq_true rfl]
      · rw [unknown other is, decide_eq_false is]
    rw [knownLicense?, describing?, same]
  rw [party]
  cases role <;> rfl

end SingleLicense

/-! ## Building -/

/-- A scanner whose composite expression tries a licence first, with slots for all groups. -/
structure Scanner.TriesFirst (scanner : Scanner) (body : Node) : Prop where
  leads : scanner.composite.Leads body
  slotted : scanner.Slotted
  named : scanner.slot? 1 = some .knownLicense
  positive : 0 < scanner.composite.groupCount
  fits : scanner.composite.node.Fits 0 (2 * scanner.composite.groupCount)

/-- What compiled patterns contribute to a composite expression. -/
def ingredients (licenses owners : Role → List Compiled) (words : List Compiled) :
    Ingredients where
  limits := {}
  licenses := bodies licenses
  owners := bodies owners
  words := words.map (·.body)

theorem slot_knownLicense :
    ((slotTable (enlistAll [] (groupName .knownLicense 1 :: commonNames))).toOption.any
      fun slots => slots.lookup 1 == some .knownLicense) = true := by
  decide +kernel

/-- The composite expression of a single licence that is read as items. -/
theorem composite_ofLicense
    {licenses owners : Role → List Compiled}
    {words : List Compiled}
    {body : Expr}
    {entries : List Entry}
    (known : bodies licenses = [body])
    (plain : Plain Pattern.flags body)
    (unowned : bodies owners = [])
    (made : compileList {} contractWords = .ok words)
    (grows : Grows Pattern.flags body entries)
    (fine : ∀ item ∈ entries.flatMap Entry.items, item.late = none) :
    ∃ regex slots,
      Regex.compile Pattern.flags (ingredients licenses owners words).composite = .ok regex ∧
      slotTable regex.names = .ok slots ∧
      ∀ scanner : Scanner, scanner.composite = regex → scanner.slots = slots →
        scanner.TriesFirst (Part.ofItems (entries.flatMap Entry.items)).node := by
  let parts := ingredients licenses owners words
  have only : parts.licenses = [body] := known
  have none : parts.owners = [] := unowned
  have sound : parts.Sound :=
    { usual := rfl
      licenses := fun one member => List.mem_singleton.mp (only ▸ member) ▸ plain
      owners := fun one member => absurd (none ▸ member) List.not_mem_nil
      words := taking_contractWords made
      someWords := fun none => contractWords_ne_nil made (List.map_eq_nil_iff.mp none) }
  obtain ⟨regex, compiled, leads⟩ := compile_known sound only grows fine
  obtain ⟨other, compiledToo, names, count, fits, -⟩ := compile_composite sound
  obtain rfl : regex = other := Except.ok.inj (compiled.symm.trans compiledToo)
  obtain ⟨slots, table, slotted⟩ := exists_slots parts
  have all : compositeNames parts = groupName .knownLicense 1 :: commonNames := by
    rw [compositeNames, only]
    rfl
  have named : slots.lookup 1 = some .knownLicense := by
    obtain ⟨others, is, first⟩ := (Option.any_eq_true _ _).mp slot_knownLicense
    rw [← all] at is
    obtain rfl : slots = others := Except.ok.inj (table.symm.trans (eq_ok_of_toOption is))
    exact eq_of_beq first
  rw [← names] at table
  rw [← count] at slotted fits
  refine ⟨regex, slots, compiled, table, ?_⟩
  rintro scanner rfl rfl
  refine ⟨leads, slotted, named, ?_, fits⟩
  rw [count, all]
  exact Nat.succ_pos _

/-- A scanner is built from compiled patterns, a composite expression and slots for its groups. -/
theorem build_of_parts
    {rules : RuleSet}
    {licenses owners : Role → List Compiled}
    {words : List Compiled}
    {exclusions : List Regex}
    {regex : Regex}
    {slots : List (Nat × Slot)}
    (madeLicenses : ∀ role, compileList {} (rules.get (.licenses role)) = .ok (licenses role))
    (madeOwners : ∀ role, compileList {} (rules.get (.owners role)) = .ok (owners role))
    (madeWords : compileList {} contractWords = .ok words)
    (madeExclusions : compileExclusions rules.exclusions = .ok exclusions)
    (compiled :
      Regex.compile Pattern.flags (ingredients licenses owners words).composite = .ok regex)
    (table : slotTable regex.names = .ok slots)
    (window threshold : Int) :
    ∃ scanner, build rules {} window threshold = .ok scanner ∧ scanner.window = window ∧
      scanner.composite = regex ∧ scanner.slots = slots := by
  have byRole_eq (lists : Role → List Compiled) :
      byRole (lists .first) (lists .third) (lists .forbidden) = lists := by
    funext role
    cases role <;> rfl
  rw [← byRole_eq licenses, ← byRole_eq owners] at compiled
  let scanner : Scanner :=
    { rules := rules
      window := window
      threshold := threshold
      licenses := byRole (licenses .first) (licenses .third) (licenses .forbidden)
      owners := byRole (owners .first) (owners .third) (owners .forbidden)
      exclusions := exclusions
      expression := (ingredients
        (byRole (licenses .first) (licenses .third) (licenses .forbidden))
        (byRole (owners .first) (owners .third) (owners .forbidden)) words).composite
      composite := regex
      slots := slots }
  refine ⟨scanner, ?_, rfl, rfl, rfl⟩
  exact bind_eq_ok.mpr ⟨_, madeLicenses .first, bind_eq_ok.mpr ⟨_, madeLicenses .third,
    bind_eq_ok.mpr ⟨_, madeLicenses .forbidden, bind_eq_ok.mpr ⟨_, madeOwners .first,
    bind_eq_ok.mpr ⟨_, madeOwners .third, bind_eq_ok.mpr ⟨_, madeOwners .forbidden,
    bind_eq_ok.mpr ⟨_, madeWords, bind_eq_ok.mpr ⟨_, madeExclusions,
    bind_eq_ok.mpr ⟨_, mapError_eq_ok.mpr compiled,
    bind_eq_ok.mpr ⟨_, table, rfl⟩⟩⟩⟩⟩⟩⟩⟩⟩⟩

/-! ## Scanning -/

section Scanning

variable {scanner : Scanner} {window : Window} {found : Regex.Found}

/-- A scan takes the only match that there is. -/
theorem taken_single
    {after : Regex.Search}
    (first : scanner.composite.next? window.text {} = some (found, after))
    (last : scanner.composite.next? window.text after = none) :
    scanner.taken window = [found] := by
  have bound : Regex.matchBound window.text = 2 * window.text.size + 1 + 1 := rfl
  rw [taken, bound, takenFrom, first]
  dsimp only
  split
  · rfl
  · split
    · rfl
    · rw [takenFrom, last]

/-- If the first group has captured something that counts, and no other group has captured
anything, there is one finding. -/
theorem groupFindings_single
    {slot : Slot}
    {start stop : Nat}
    (positive : 0 < scanner.composite.groupCount)
    (named : scanner.slot? 1 = some slot)
    (groups : ∀ index, 0 < index →
      found.group? index = if index = 1 then some (start, stop) else none)
    (counts : scanner.Counts window start stop) :
    scanner.groupFindings window found =
      [scanner.captureFinding window found slot start stop] := by
  obtain ⟨more, count⟩ : ∃ more, scanner.composite.groupCount = more + 1 :=
    ⟨scanner.composite.groupCount - 1, by omega⟩
  have one : scanner.groupFinding? window found 1 =
      some (scanner.captureFinding window found slot start stop) := by
    simp only [groupFinding?, groups 1 Nat.one_pos, if_pos, named, if_pos counts]
  have others : ∀ group ∈ List.range' 2 more, scanner.groupFinding? window found group = none := by
    intro group member
    have above := (List.mem_range'_1.mp member).1
    simp only [groupFinding?, groups group (by omega), if_neg (show group ≠ 1 by omega)]
  rw [groupFindings, count, List.range'_succ, List.filterMap_cons, one,
    List.filterMap_eq_nil_iff.mpr others]

/-- A scan with a single match in which a group finds a licence reports that licence. -/
theorem scanWindow_single
    {finding : Finding}
    {report : Report}
    (done : scanner.scanWindow window = .ok report)
    (taken : scanner.taken window = [found])
    (findings : scanner.groupFindings window found = [finding])
    (license : finding.kind = .license) :
    report.findings = [finding] := by
  have notWhole (tally : Tally) : ¬ scanner.LooksAtWhole window found tally := by
    rintro ⟨none, -⟩
    rw [findings] at none
    cases none
  rw [scanWindow_tally done, taken, tallyOf, List.foldl_cons, List.foldl_nil, credit,
    if_neg (notWhole _), findings, List.foldl_cons, List.foldl_nil, Tally.result,
    Tally.addCapture, license]
  rfl

end Scanning

/-! ## Recognition -/

namespace Decorated

/-- The pattern of the words compiles, to an inline form that means their language. -/
theorem compile_phrase (shown : Decorated) :
    ∃ made entries, Pattern.compile {} (String.ofList shown.phrase.text) = .ok made ∧
      Grows Pattern.flags made.body entries ∧
      Means (entries.flatMap Entry.items) (shown.phrase.language {}) ∧
      Plain Pattern.flags made.body ∧
      ∀ text, made.describes text = true ↔ text.toList ∈ shown.phrase.language {} := by
  have usual : Limits.Sound {} := ⟨by decide, by decide, by decide⟩
  obtain ⟨regex, whole, matched⟩ := (shown.phrase.denotes_whole usual).compile
  rw [← shown.phrase.widen_text {}, ← shown.phrase.wholeExpr_text] at whole
  obtain ⟨made, compiled, same⟩ := compile_of_findings (String.ofList shown.phrase.text)
    (by rw [String.toList_ofList, shown.phrase.findings_text])
    (by rw [String.toList_ofList, whole])
  have body : made.body = shown.phrase.inner (Joint.gap {}) := by
    rw [(spec_of_compile compiled).1, String.toList_ofList, shown.phrase.widen_text]
  have denotes : Denotes Pattern.flags (shown.phrase.inner (Joint.gap {}))
      (shown.phrase.language {}) := by
    have front : shown.phrase.front.language = 1 := rfl
    have back : shown.phrase.back.language = 1 := rfl
    rw [Phrase.language, front, back, one_mul, mul_one]
    exact shown.phrase.first.denotes.append (Phrase.denotes_tail usual shown.phrase.rest)
      (Phrase.settled_tail shown.phrase.rest)
  obtain ⟨entries, grows, means⟩ := denotes
  rw [← body] at grows
  have contained : SelfContained {} (String.ofList shown.phrase.text) := by
    obtain ⟨alone, read, -, -, count⟩ :=
      (grows.splits false []).compile ((late_ofItems _).mpr means.late)
    rw [(spec_of_compile compiled).1] at read
    exact ⟨alone, read, count⟩
  refine ⟨made, entries, compiled, grows, means, contained.plain compiled, fun text => ?_⟩
  rw [← matched text, ← same]
  rfl

/-- A scanner that knows one licence finds it in a decorated text, and nothing else. -/
theorem scanWindow_decorated
    {scanner : Scanner}
    {role : Role}
    {items : List Item}
    (shown : Decorated)
    (built : Built (RuleSet.ofLicense role (String.ofList shown.phrase.text)) {} scanner)
    (tries : scanner.TriesFirst (Part.ofItems items).node)
    (means : Means items (shown.phrase.language {}))
    (described :
      Describes {} [String.ofList shown.phrase.text] shown.joined) :
    ∃ report, scanner.scanWindow (.ofText shown.text) = .ok report ∧
      report.findings =
        [ { party := partyOf role
            kind := .license
            text := shown.joined
            startLine := 1
            endLine := 1 + shown.text.count '\n'
            start := 0
            stop := shown.text.length } ] := by
  let window := Window.ofText shown.text
  have size : window.text.size = shown.text.length := List.size_toArray
  have spells := means.spells window.text
  have bare := (bare_ofItems items).mpr means.bare
  obtain ⟨found, after, first, last, start, stop, groups⟩ :=
    tries.leads.next? means.unconditional_ofItems bare spells shown.text_mem_language
      (fun _ => shown.front_eq_text) shown.nil_notMem_language tries.fits
  have all : slice window.text 0 window.text.size = shown.text := by
    rw [slice, Array.extract_size]
    rfl
  have normal : normalText (slice window.text 0 window.text.size) = shown.joined := by
    rw [all, shown.normalText_text]
  have none : scanner.exclusions = [] := by
    have exclusions := built.exclusions
    rw [exclusions_ofLicense] at exclusions
    exact (Except.ok.inj exclusions).symm
  have counts : scanner.Counts window 0 window.text.size := by
    rw [Counts, normal, isExcluded, none]
    obtain ⟨⟨c, rest, listed, -⟩, -⟩ := shown.exists_joined_ends
    exact ⟨listed ▸ List.cons_ne_nil c rest, rfl⟩
  obtain ⟨report, done⟩ := tries.slotted.scanWindow window
  have reported := scanWindow_single done (taken_single first last)
    (groupFindings_single tries.positive tries.named groups counts)
  have finding : scanner.captureFinding window found .knownLicense 0 window.text.size =
      { party := partyOf role
        kind := .license
        text := shown.joined
        startLine := 1
        endLine := 1 + shown.text.count '\n'
        start := 0
        stop := shown.text.length } := by
    have classified : scanner.classify shown.joined .knownLicense = (partyOf role, .license) := by
      rw [classify, built.knownLicense?_ofLicense described]
    have lines : Reader.lineIn shown.text shown.text.length = 1 + shown.text.count '\n' := by
      rw [Reader.lineIn, List.take_length]
    rw [captureFinding, normal, classified, wholeText, start, stop, normal, size, ← lines]
    rfl
  rw [finding] at reported
  exact ⟨report, done, reported rfl⟩

/-- Decorated licences are recognized end to end. If the words of a licence, with single spaces
between them, are the only pattern of a rule set, then a text that shows these words in letters of
either case, with blanks and decorations between them, is reported as one finding: the licence of
the party that the pattern belongs to, from the start to the end of the text, with the words as
they are shown and single spaces between them. -/
theorem scanBytes_decorated
    (role : Role)
    (shown : Decorated)
    (window threshold : Int)
    (fits : (shown.text.length : Int) ≤ window)
    (name : String) :
    ∃ scanner report,
      build (RuleSet.ofLicense role (String.ofList shown.phrase.text)) {} window threshold =
        .ok scanner ∧
      (scanner.scanBytes name (Utf8.encode shown.text)).1 = .ok report ∧
      report.findings =
        [ { party := partyOf role
            kind := .license
            text := shown.joined
            startLine := 1
            endLine := 1 + shown.text.count '\n'
            start := 0
            stop := shown.text.length } ] := by
  obtain ⟨made, entries, compiled, grows, means, plain, describes⟩ := shown.compile_phrase
  obtain ⟨words, madeWords⟩ := contractWords_made
  obtain ⟨regex, slots, composite, table, tries⟩ :=
    composite_ofLicense (bodies_onlyFor role made) plain bodies_nil madeWords grows means.late
  have exclusions : compileExclusions
      (RuleSet.ofLicense role (String.ofList shown.phrase.text)).exclusions = .ok [] := by
    rw [exclusions_ofLicense]
    rfl
  obtain ⟨scanner, done, wide, rfl, rfl⟩ := build_of_parts
    (fun other => by rw [(get_ofLicense role _ other).1, compileList_onlyFor compiled])
    (fun other => by rw [(get_ofLicense role _ other).2]; rfl)
    madeWords exclusions composite table window threshold
  have described : Describes {} [String.ofList shown.phrase.text] shown.joined :=
    ⟨_, List.mem_singleton.mpr rfl, made, compiled, (describes _).mpr shown.joined_mem_language⟩
  obtain ⟨report, scanned, findings⟩ :=
    shown.scanWindow_decorated (built_of_build done) (tries scanner rfl rfl) means described
  rw [← wide] at fits
  refine ⟨scanner, report, done, ?_, findings⟩
  rw [scanBytes_encode shown.quoteless_text shown.text_ne_nil fits name, scanned]

/-- Two words of a licence, in other cases and on two lines of a comment. -/
def apacheComment : Decorated where
  first :=
    { word := ⟨"Apache".toList, by decide, List.all_eq_true.mp (by decide)⟩
      letters := "APACHE".toList
      same := by decide }
  rest :=
    [ ({ fillers := " *\n * ".toList
         nonempty := by decide
         short := by decide
         filling := List.all_eq_true.mp (by decide) },
       { word := ⟨"License".toList, by decide, List.all_eq_true.mp (by decide)⟩
         letters := "license".toList
         same := by decide }) ]

theorem scanBytes_decorated_apache :
    apacheComment.phrase.text = "Apache License".toList ∧
      apacheComment.text = "APACHE *\n * license".toList ∧
      (apacheComment.text.length : Int) ≤ 262144 ∧
      ∃ scanner report,
        build (RuleSet.ofLicense .third "Apache License") {} 262144 10 = .ok scanner ∧
        (scanner.scanBytes "comment" (Utf8.encode "APACHE *\n * license".toList)).1 =
          .ok report ∧
        report.findings =
          [⟨.third, .license, "APACHE license".toList, 1, 2, 0, 19⟩] := by
  have pattern : apacheComment.phrase.text = "Apache License".toList := by decide
  have text : apacheComment.text = "APACHE *\n * license".toList := by decide
  have fits : (apacheComment.text.length : Int) ≤ 262144 := by decide
  have joined : apacheComment.joined = "APACHE license".toList := by decide
  have stop : apacheComment.text.length = 19 := by decide
  have lines : apacheComment.text.count '\n' = 1 := by decide
  have found := scanBytes_decorated .third apacheComment 262144 10 fits "comment"
  rw [joined, stop, lines, pattern, text, String.ofList_toList] at found
  exact ⟨pattern, text, fits, found⟩

end Decorated

end NoticeScan
