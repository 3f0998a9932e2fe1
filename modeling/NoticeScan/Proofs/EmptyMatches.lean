import NoticeScan.Proofs.KnownFirst
import NoticeScan.Proofs.KnownOwners
import NoticeScan.Proofs.Ordering

/-!
# Empty matches

What a group has captured counts only if something is left of it when it is made normal. Of a
match as a whole this is not asked. So where a licence pattern can match the empty text, each empty
match is reported as that licence, and counts towards the end of the scan. If every licence pattern
takes a character, all matches do.
-/

namespace NoticeScan

open NoticeScan.Regex NoticeScan.Scan

/-- A finding covers at least one character. -/
def Finding.Covers (finding : Finding) : Prop :=
  finding.start < finding.stop

instance (finding : Finding) : Decidable finding.Covers :=
  inferInstanceAs (Decidable (_ < _))

/-- The inline form of every licence pattern takes a character. -/
def RuleSet.LicensesTake (rules : RuleSet) : Prop :=
  ∀ role ∈ Scanner.compositeOrder, ∀ pattern ∈ rules.get (.licenses role),
    eachTakes Pattern.flags (Pattern.widen {} pattern.toList) = true

instance (rules : RuleSet) : Decidable rules.LicensesTake :=
  inferInstanceAs (Decidable (∀ role ∈ Scanner.compositeOrder, _))

/-! ## Expressions without empty matches -/

namespace Scan

variable {parts : Ingredients} {before : List (List Char × Nat)}

theorem builds_capture_taking
    {flags : Flags}
    {piece : Pattern.Expr}
    (slot : Slot)
    (number : Nat)
    (plain : PlainTaking flags piece)
    (new : before.lookup (groupName slot number) = none) :
    BuildsTaking true flags before (enlist before (groupName slot number))
      (capture slot number piece) := by
  obtain ⟨spelled, isName⟩ := spelled_of_namesGroup (namesGroup_groupName slot number)
  rw [capture_eq]
  exact plain.captured spelled isName new

/-- If all known licences take a character, whatever is looked for does. -/
theorem compile_composite_taking
    (sound : parts.Sound)
    (takes : ∀ body ∈ parts.licenses, PlainTaking Pattern.flags body) :
    ∃ regex, Regex.compile Pattern.flags parts.composite = .ok regex ∧
      ∀ text start stop passes, regex.node.ways text start stop passes → start < stop := by
  have around := surroundings
  suffices offers : OffersTaking false Pattern.flags [] (enlistAll [] (compositeNames parts))
      parts.composite from offers.compile
  rw [Ingredients.composite, Ingredients.alternatives, compositeNames]
  cases known : parts.licenses.isEmpty with
  | true => exact offers_common sound around.common
  | false =>
      have one : parts.licenses ≠ [] := by
        intro none
        rw [none] at known
        cases known
      have captured : BuildsTaking true Pattern.flags [] _ _ :=
        builds_capture_taking .knownLicense 1 (PlainTaking.oneOf one takes) rfl
      exact captured.grouped.bar (offers_common sound around.known)

end Scan

/-! ## Fragments -/

namespace Scan.Fragments

variable {fragments : Fragments} {fragment next : Fragment}

/-- A fragment that is kept behind another one was kept before, is new, or is the last one grown
by the new one. -/
theorem mem_toList_add
    (member : fragment ∈ (fragments.add next).toList) :
    fragment ∈ fragments.toList ∨ fragment = next ∨
      ∃ prior ∈ fragments.toList, fragment = prior.join next := by
  have started : fragment ∈ (fragments.start next).toList →
      fragment ∈ fragments.toList ∨ fragment = next := by
    intro member
    by_cases kept : (fragments.count : Int) < fragments.limit
    · rw [toList_start_kept kept, List.mem_append, List.mem_singleton] at member
      exact member
    · rw [start_full kept] at member
      exact Or.inl member
  cases isLast : fragments.last with
  | none =>
      rw [Fragments.add, isLast] at member
      exact (started member).imp_right Or.inl
  | some prior =>
      by_cases close : next.isCloseTo prior = true
      · rw [add_of_close isLast close] at member
        simp only [toList, isLast, Option.toList_some, List.singleton_append,
          List.reverse_cons, List.mem_append, List.mem_reverse, List.mem_singleton] at member ⊢
        rcases member with earlier | joined
        · exact Or.inl (Or.inl earlier)
        · exact Or.inr (Or.inr ⟨prior, Or.inr rfl, joined⟩)
      · rw [Fragments.add, isLast] at member
        dsimp only at member
        rw [if_neg close] at member
        exact (started member).imp_right Or.inl

end Scan.Fragments

namespace Scanner

variable {rules : RuleSet} {scanner : Scanner} {window : Window} {found : Regex.Found}
  {founds : List Regex.Found} {tally : Tally} {finding : Finding} {party : Party}

/-! ## What an empty match is as a whole -/

theorem wholeText_of_empty
    (empty : found.start = found.stop) :
    wholeText window found = [] := by
  rw [wholeText, slice, Array.toList_extract, List.extract_eq_take_drop, empty, Nat.sub_self,
    List.take_zero, normalText_nil]

/-- Only exclusions pass the empty text over. -/
theorem passedOver_nil :
    scanner.PassedOver [] ↔ scanner.isExcluded [] = true := by
  have noDenial : negated.matchesStart [].toArray = false := by decide +kernel
  rw [PassedOver, noDenial]
  exact or_iff_right Bool.false_ne_true

/-- The empty text can be a licence, and no owner. -/
theorem classifyWhole?_nil :
    scanner.classifyWhole? [] = (scanner.knownLicense? []).map (·, .license) := by
  have noName : normalOwner [] = [] := by decide +kernel
  have noOwner : scanner.knownOwner? [] = none := rfl
  rw [classifyWhole?, noName, noOwner]
  cases scanner.knownLicense? [] <;> rfl

/-- An empty match that is looked at as a whole is that licence which describes the empty text, if
there is one and no exclusion hits the empty text. -/
theorem credit_empty
    (looked : scanner.LooksAtWhole window found tally)
    (empty : found.start = found.stop)
    (kept : scanner.isExcluded [] = false)
    (known : scanner.knownLicense? [] = some party) :
    scanner.credit window tally found =
      tally.addWhole (findingAt window party .license [] found.start found.stop) := by
  have notPassed : ¬ scanner.PassedOver [] := by
    rw [passedOver_nil, kept]
    exact Bool.false_ne_true
  rw [credit, if_pos looked, countWhole_eq, wholeText_of_empty empty, if_neg notPassed,
    addWholeMatch, wholeText_of_empty empty, classifyWhole?_nil, known]
  rfl

theorem covers_of_groupFindings
    (member : finding ∈ scanner.groupFindings window found) :
    finding.Covers := by
  obtain ⟨group, slot, start, stop, -, -, counts, rfl⟩ := exists_capture_of_mem member
  exact counts.start_lt

/-- An empty match captures nothing that counts. -/
theorem groupFindings_of_empty
    (encloses : found.Encloses)
    (empty : found.start = found.stop) :
    scanner.groupFindings window found = [] := by
  refine List.eq_nil_iff_forall_not_mem.mpr fun finding member => ?_
  obtain ⟨group, slot, start, stop, positive, captured, counts, -⟩ := exists_capture_of_mem member
  obtain ⟨low, -, high⟩ := encloses group start stop positive captured
  have less := counts.start_lt
  omega

/-- A match is reported as an empty licence: it is empty, and no exclusion hits the empty text. -/
def EmptyLicense (scanner : Scanner) (window : Window) (tally : Tally) (found : Regex.Found) :
    Prop :=
  found.start = found.stop ∧ scanner.LooksAtWhole window found tally ∧
    scanner.isExcluded [] = false ∧ (scanner.knownLicense? []).isSome = true

instance (scanner : Scanner) (window : Window) (tally : Tally) (found : Regex.Found) :
    Decidable (scanner.EmptyLicense window tally found) :=
  inferInstanceAs (Decidable (_ ∧ _))

/-- A match that is something as a whole is not empty, unless it is reported as an empty
licence. -/
theorem start_lt_of_classifyWhole?
    {kind : Kind}
    (forward : found.start ≤ found.stop)
    (license : ¬ scanner.EmptyLicense window tally found)
    (looked : scanner.LooksAtWhole window found tally)
    (notPassed : ¬ scanner.PassedOver (wholeText window found))
    (classified : scanner.classifyWhole? (wholeText window found) = some (party, kind)) :
    found.start < found.stop := by
  refine Nat.lt_of_le_of_ne forward fun empty => license ?_
  rw [wholeText_of_empty empty] at notPassed classified
  rw [passedOver_nil, Bool.not_eq_true] at notPassed
  rw [classifyWhole?_nil, Option.map_eq_some_iff] at classified
  obtain ⟨role, known, -⟩ := classified
  exact ⟨empty, looked, notPassed, Option.isSome_of_mem known⟩

/-- The findings of one more match cover something, unless it is reported as an empty licence. -/
theorem credit_covers_iff
    (forward : found.start ≤ found.stop) :
    (∀ finding ∈ (scanner.credit window tally found).findings, finding.Covers) ↔
      (∀ finding ∈ tally.findings, finding.Covers) ∧
        ¬ scanner.EmptyLicense window tally found := by
  by_cases license : scanner.EmptyLicense window tally found
  · refine iff_of_false ?_ fun both => both.2 license
    obtain ⟨empty, looked, kept, some⟩ := license
    obtain ⟨party, known⟩ := Option.isSome_iff_exists.mp some
    rw [credit_empty looked empty kept known]
    intro all
    exact Nat.ne_of_lt (all _ List.mem_cons_self) empty
  · rw [and_iff_left license]
    by_cases looked : scanner.LooksAtWhole window found tally
    · rw [credit, if_pos looked, countWhole_eq]
      split
      · rfl
      · rename_i notPassed
        rw [addWholeMatch]
        split
        · rename_i party kind classified
          exact List.forall_mem_cons.trans (and_iff_right
            (start_lt_of_classifyWhole? forward license looked notPassed classified))
        · rfl
    · rw [credit, if_neg looked, Tally.findings_addCaptures, List.forall_mem_append]
      refine and_iff_right fun finding member => ?_
      exact covers_of_groupFindings (List.mem_reverse.mp member)

/-! ## What matches add up to -/

/-- Findings that are no fragments cover something just when no match is reported as an empty
licence. -/
theorem tallyOf_covers_iff
    (forward : ∀ found ∈ founds, found.start ≤ found.stop) :
    (∀ finding ∈ (scanner.tallyOf window founds).findings, finding.Covers) ↔
      ∀ before found, before ++ [found] <+: founds →
        ¬ scanner.EmptyLicense window (scanner.tallyOf window before) found := by
  induction founds using List.reverseRecOn with
  | nil => exact iff_of_true (List.forall_mem_nil _) fun before found front => by simp at front
  | append_singleton earlier last inductionHypothesis =>
      obtain ⟨forwardEarlier, forwardLast⟩ := List.forall_mem_append.mp forward
      rw [tallyOf_concat, credit_covers_iff (forwardLast last (List.mem_singleton_self last)),
        inductionHypothesis forwardEarlier]
      constructor
      · rintro ⟨others, notLast⟩ before found front
        rcases List.prefix_concat_iff.mp front with same | inEarlier
        · obtain ⟨rfl, sameLast⟩ := List.append_inj' same rfl
          cases sameLast
          exact notLast
        · exact others before found inEarlier
      · intro all
        exact ⟨fun before found front => all before found (front.trans (List.prefix_append _ _)),
          all earlier last List.prefix_rfl⟩

/-- Matches that cover something do not add up to empty fragments. -/
theorem tallyOf_fragments_cover
    (run : LeftToRight founds)
    (moving : ∀ found ∈ founds, found.start < found.stop) :
    ∀ fragment ∈ (scanner.tallyOf window founds).fragments.toList,
      fragment.start < fragment.stop := by
  induction founds using List.reverseRecOn with
  | nil => exact List.forall_mem_nil _
  | append_singleton before found inductionHypothesis =>
      obtain ⟨runBefore, -, across⟩ := run.of_concat
      obtain ⟨movingBefore, movingFound⟩ := List.forall_mem_append.mp moving
      have moves := movingFound found (List.mem_singleton_self found)
      have earlier := inductionHypothesis runBefore movingBefore
      intro fragment member
      rw [tallyOf_concat] at member
      rcases @credit_fragments scanner window found (scanner.tallyOf window before)
        with same | more
      · exact earlier fragment (same ▸ member)
      · rw [more] at member
        rcases Fragments.mem_toList_add member with kept | rfl | ⟨prior, listed, rfl⟩
        · exact earlier fragment kept
        · exact moves
        · obtain ⟨other, among, start⟩ :=
            (tallyOf_starts runBefore).2 prior.start (List.mem_map_of_mem listed)
          have apart := across other among
          have ahead : prior.start < found.stop := by omega
          exact ahead

/-! ## What a scan reports -/

/-- If all licence patterns take a character, no match is empty. -/
theorem moving_of_build
    {size threshold : Int}
    (made : build rules {} size threshold = .ok scanner)
    (contained : rules.SelfContained)
    (takes : rules.LicensesTake)
    (window : Window) :
    ∀ found ∈ scanner.taken window, found.start < found.stop := by
  obtain ⟨parts, sound, licenses, composite⟩ := ingredients_of_build made contained
  have each : ∀ body ∈ parts.licenses, PlainTaking Pattern.flags body := by
    rw [licenses]
    intro body member
    obtain ⟨role, asked, among⟩ := List.mem_flatMap.mp member
    refine bodies_of_compileList ((built_of_build made).licenses role) ?_ body among
    intro pattern listed one compiled
    rw [(Pattern.spec_of_compile compiled).1]
    exact plainTaking_of_eachTakes (takes role asked pattern listed) rfl
  obtain ⟨regex, compiled, moves⟩ := compile_composite_taking sound each
  obtain rfl : regex = scanner.composite := Except.ok.inj (compiled.symm.trans composite)
  obtain ⟨-, ⟨high, fits⟩, -⟩ := composite_of_build made contained
  intro found member
  obtain ⟨passes, way, -⟩ := findAll_tells fits ((taken_findAll scanner window).subset member)
  exact moves _ _ _ _ way

/-- The findings of a scan all cover something just when no match is reported as an empty licence,
and no fragment that is reported is empty. An empty licence is a finding with a known party, and
counts as one. -/
theorem scanWindow_covers_iff
    {report : Report}
    (done : scanner.scanWindow window = .ok report) :
    let founds := scanner.taken window
    let tally := scanner.tallyOf window founds
    report.findings = tally.result ∧
    ((∀ finding ∈ report.findings, finding.Covers) ↔
      (∀ before found, before ++ [found] <+: founds →
        ¬ scanner.EmptyLicense window (scanner.tallyOf window before) found) ∧
      (tally.licenses = 0 → ∀ fragment ∈ tally.fragments.findings, fragment.Covers)) ∧
    (∀ before found, before ++ [found] <+: founds →
      scanner.EmptyLicense window (scanner.tallyOf window before) found →
        ∃ party ≠ .unknown, scanner.knownLicense? [] = some party ∧
          scanner.tallyOf window (before ++ [found]) =
            (scanner.tallyOf window before).addWhole
              (findingAt window party .license [] found.start found.stop)) := by
  intro founds tally
  have run : LeftToRight founds :=
    (findFrom_leftToRight _ (Nat.zero_le _)).1.of_front (taken_findAll scanner window)
  have result : report.findings = tally.result := scanWindow_tally done
  refine ⟨result, ?_, ?_⟩
  · rw [← tallyOf_covers_iff run.forward, result, Tally.result, List.forall_mem_append]
    refine and_congr (forall_congr' fun finding => by rw [List.mem_reverse]) ?_
    by_cases none : tally.licenses = 0
    · rw [if_pos none, forall_prop_of_true none]
    · rw [if_neg none]
      exact iff_of_true (List.forall_mem_nil _) fun noLicense => absurd noLicense none
  · rintro before found - ⟨empty, looked, kept, some⟩
    obtain ⟨party, known⟩ := Option.isSome_iff_exists.mp some
    refine ⟨party, ?_, known, ?_⟩
    · rintro rfl
      exact describing?_ne_unknown _ _ known
    · rw [tallyOf_concat]
      exact credit_empty looked empty kept known

/-- Findings can be empty only where a licence pattern need not take a character. Without such
patterns, a scan comes to a report, and all findings cover something. In any report they do just
when no match is reported as an empty licence, which is then counted as a finding with a known
party, and no fragment that is reported is empty. -/
theorem findings_cover_iff
    {size threshold : Int}
    (made : build rules {} size threshold = .ok scanner)
    (window : Window) :
    (rules.SelfContained → rules.LicensesTake →
      ∃ report, scanner.scanWindow window = .ok report ∧
        ∀ finding ∈ report.findings, finding.Covers) ∧
    ∀ report, scanner.scanWindow window = .ok report →
      let founds := scanner.taken window
      let tally := scanner.tallyOf window founds
      report.findings = tally.result ∧
      ((∀ finding ∈ report.findings, finding.Covers) ↔
        (∀ before found, before ++ [found] <+: founds →
          ¬ scanner.EmptyLicense window (scanner.tallyOf window before) found) ∧
        (tally.licenses = 0 → ∀ fragment ∈ tally.fragments.findings, fragment.Covers)) ∧
      (∀ before found, before ++ [found] <+: founds →
        scanner.EmptyLicense window (scanner.tallyOf window before) found →
          ∃ party ≠ .unknown, scanner.knownLicense? [] = some party ∧
            scanner.tallyOf window (before ++ [found]) =
              (scanner.tallyOf window before).addWhole
                (findingAt window party .license [] found.start found.stop)) := by
  refine ⟨fun contained takes => ?_, fun report done => scanWindow_covers_iff done⟩
  obtain ⟨slotted, -, -⟩ := composite_of_build made contained
  obtain ⟨report, done⟩ := slotted.scanWindow window
  have moving := moving_of_build made contained takes window
  have run : LeftToRight (scanner.taken window) :=
    (findFrom_leftToRight _ (Nat.zero_le _)).1.of_front (taken_findAll scanner window)
  refine ⟨report, done, (scanWindow_covers_iff done).2.1.mpr ⟨?_, fun _ => ?_⟩⟩
  · intro before found front license
    have listed : found ∈ scanner.taken window :=
      front.subset (List.mem_append_right _ (List.mem_singleton_self found))
    exact Nat.ne_of_lt (moving found listed) license.1
  · rw [Fragments.findings, List.forall_mem_map]
    exact tallyOf_fragments_cover run moving

/-- A licence that may be left out is found in front of every text. -/
theorem matchAt_optional :
    ∃ known, Regex.compile Pattern.flags
        (Pattern.group (capture .knownLicense 1 (Pattern.oneOf ["a?".toList]))) = .ok known ∧
      ∃ found, known.matchAt "x".toList.toArray false 0 = some found ∧
        found.start = found.stop := by
  suffices matched : (Regex.compile Pattern.flags
      (Pattern.group (capture .knownLicense 1 (Pattern.oneOf ["a?".toList])))).toOption.any
        (fun known => (known.matchAt "x".toList.toArray false 0).any fun found =>
          found.start == found.stop) = true by
    obtain ⟨known, compiled, found, is, empty⟩ := exists_matchAt_of_any matched
    exact ⟨known, compiled, found, is, beq_iff_eq.mp empty⟩
  decide +kernel

/-- A pattern in which everything may be left out passes the check. With it, a scan reports a
finding that covers nothing. -/
theorem findings_cover_iff_optional :
    let rules : RuleSet := { thirdLicenses := ["a?"] }
    let window : Window := .ofText "x".toList
    rules.issues = .ok [] ∧ rules.SelfContained ∧ ¬ rules.LicensesTake ∧
      ∃ scanner report, ofRules rules = .ok scanner ∧ scanner.scanWindow window = .ok report ∧
        ∃ finding ∈ report.findings, ¬ finding.Covers := by
  intro rules window
  have checked : rules.issues = .ok [] := by decide +kernel
  have contained : rules.SelfContained := by decide +kernel
  obtain ⟨scanner, made, built⟩ := exists_scanner checked contained
  obtain ⟨slotted, ⟨high, fits⟩, encloses⟩ := composite_of_build made contained
  obtain ⟨report, done⟩ := slotted.scanWindow window
  obtain ⟨-, covers, -⟩ := (findings_cover_iff made window).2 report done
  refine ⟨checked, contained, by decide +kernel, scanner, report, made, done, ?_⟩
  -- The known licence is what is found first, and it is empty.
  obtain ⟨parts, sound, licenses, composite⟩ := ingredients_of_build made contained
  have single : parts.licenses = ["a?".toList] := by
    have written : (compileList {} ["a?"]).toOption.map (fun list => list.map (·.body)) =
        some ["a?".toList] := by
      decide +kernel
    have first : scanner.licenses .first = [] := (Except.ok.inj (built.licenses .first)).symm
    have forbidden : scanner.licenses .forbidden = [] :=
      (Except.ok.inj (built.licenses .forbidden)).symm
    have third : compileList {} ["a?"] = .ok (scanner.licenses .third) := built.licenses .third
    rw [third] at written
    rw [licenses, bodies]
    simpa [compositeOrder, first, forbidden] using Option.some.inj written
  obtain ⟨known, compiled, found, is, empty⟩ := matchAt_optional
  rw [← single] at compiled
  have some : parts.licenses ≠ [] := single ▸ List.cons_ne_nil _ []
  have front : [found] <+: scanner.taken window :=
    taken_of_next? (next?_of_matchAt (matchAt_composite_known sound some compiled composite is))
  obtain ⟨passes, tells⟩ := findAll_tells fits
    ((front.trans (taken_findAll scanner window)).subset (List.mem_singleton_self found))
  have nothing : scanner.groupFindings window found = [] :=
    groupFindings_of_empty (tells.encloses (encloses window.text)) empty
  have described : (scanner.knownLicense? []).isSome = true := by
    rw [Option.isSome_iff_ne_none, Ne, built.knownLicense?_eq_none]
    have third : Describes {} (rules.get (.licenses .third)) [] := by decide +kernel
    exact fun none => none .third third
  have kept : scanner.isExcluded [] = false := by
    have none : scanner.exclusions = [] := Except.ok.inj built.exclusions.symm
    rw [isExcluded, none]
    rfl
  have room : (0 : Int) ≤ scanner.threshold := by
    rw [threshold_of_build made]
    decide
  have license : scanner.EmptyLicense window (scanner.tallyOf window []) found :=
    ⟨empty, ⟨nothing, rfl, room⟩, kept, described⟩
  have notAll : ¬ ∀ finding ∈ report.findings, finding.Covers :=
    fun all => (covers.mp all).1 [] found front license
  simpa only [not_forall, exists_prop] using notAll

-- A scanner that looks for this pattern alone: two empty licences in a text with one letter.
example :
    ((lookingFor { thirdLicenses := ["a?"] } "(?P<known_license_1>a?)").toOption.bind fun scanner =>
      (scanner.scanWindow (.ofText "x".toList)).toOption).map (fun report =>
        report.findings.map fun finding => (finding.start, finding.stop, finding.party)) =
      some [(0, 0, .third), (1, 1, .third)] := by
  decide +kernel

end Scanner

end NoticeScan
