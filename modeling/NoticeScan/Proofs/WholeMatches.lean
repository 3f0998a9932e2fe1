import NoticeScan.Proofs.Attribution

/-!
# What whole matches add

The tally of a scan is a fold over the matches that it takes. A match without a finding of its
groups may be looked at as a whole: then it is a licence or an owner itself, or a fragment, unless
an exclusion hits the whole of it. That an exclusion has hit what its groups have captured is not
asked again, and a licence found in this way does not hide the fragments.
-/

namespace NoticeScan

open NoticeScan.Scan

/-! ## Findings of groups and fragments -/

namespace Tally

theorem licenses_addCaptures
    (captures : List Finding)
    (tally : Tally) :
    (captures.foldl addCapture tally).licenses =
      tally.licenses + captures.countP (·.kind = .license) := by
  induction captures generalizing tally with
  | nil => rfl
  | cons finding rest inductionHypothesis =>
      have one : (tally.addCapture finding).licenses =
          if finding.kind = .license then tally.licenses + 1 else tally.licenses := rfl
      rw [List.foldl_cons, inductionHypothesis, one]
      by_cases license : finding.kind = .license
      · rw [if_pos license, List.countP_cons_of_pos (by simpa using license)]
        omega
      · rw [if_neg license, List.countP_cons_of_neg (by simpa using license)]

/-- A fragment is noticed in any case: it is counted, or the last one grows. -/
theorem addFragment_ne
    (tally : Tally)
    (fragment : Fragment) :
    tally.addFragment fragment ≠ tally := by
  intro same
  have kept : tally.fragments.add fragment = tally.fragments := congrArg Tally.fragments same
  have counted : (tally.fragments.start fragment).count = tally.fragments.count + 1 := by
    rw [Fragments.start]
    split <;> rfl
  rw [Fragments.add] at kept
  split at kept
  · rename_i prior isLast
    split at kept
    · have grown := congrArg Fragments.last kept
      rw [isLast] at grown
      have length : (prior.join fragment).text.length = prior.text.length :=
        congrArg (fun joined : Fragment => joined.text.length) (Option.some.inj grown)
      have joined : (prior.join fragment).text.length =
          prior.text.length + 3 + fragment.text.length := by
        rw [Fragment.join, List.length_append, List.length_append]
        rfl
      omega
    · rw [kept] at counted
      omega
  · rw [kept] at counted
    omega

theorem addWhole_ne
    (tally : Tally)
    (finding : Finding) :
    tally.addWhole finding ≠ tally := by
  intro same
  exact List.cons_ne_self finding tally.findings (congrArg Tally.findings same)

end Tally

namespace Scanner

variable {rules : RuleSet} {limits : Pattern.Limits} {scanner : Scanner} {window : Window}
  {found : Regex.Found} {tally : Tally} {report : Report}

/-! ## A scan as a fold -/

/-- The tally behind a match. -/
def credit (scanner : Scanner) (window : Window) (tally : Tally) (found : Regex.Found) : Tally :=
  if scanner.LooksAtWhole window found tally then
    (scanner.countWhole window (wholeText window found) found tally).1
  else
    (scanner.groupFindings window found).foldl Tally.addCapture tally

/-- The tally behind some matches from the first one on. -/
def tallyOf (scanner : Scanner) (window : Window) (founds : List Regex.Found) : Tally :=
  founds.foldl (scanner.credit window) { fragments := { limit := scanner.threshold } }

theorem countMatch_credit
    {counted : Tally}
    {counts : Bool}
    (done : scanner.countMatch window found tally = .ok (counted, counts)) :
    counted = scanner.credit window tally found := by
  have result := countMatch_eq done
  rw [credit]
  by_cases whole : scanner.LooksAtWhole window found tally
  · rw [if_pos whole] at result ⊢
    exact congrArg Prod.fst result
  · rw [if_neg whole] at result ⊢
    exact congrArg Prod.fst result

theorem countFrom_credit
    {bound : Nat}
    {search : Regex.Search}
    {final : Tally}
    {stopped : Option EarlyStop}
    (done : scanner.countFrom window bound search tally = .ok (final, stopped)) :
    final = (scanner.takenFrom window bound search tally).foldl (scanner.credit window) tally := by
  induction bound generalizing search tally with
  | zero =>
      cases done
      rfl
  | succ bound inductionHypothesis =>
      rw [countFrom] at done
      rw [takenFrom]
      cases next : scanner.composite.next? window.text search with
      | none =>
          rw [next] at done
          cases done
          rfl
      | some step =>
          obtain ⟨found, after⟩ := step
          rw [next] at done
          dsimp only at done ⊢
          cases counting : scanner.countMatch window found tally with
          | error error =>
              rw [counting] at done
              cases done
          | ok result =>
              obtain ⟨counted, counts⟩ := result
              have credited := countMatch_credit counting
              rw [counting] at done
              dsimp only at done ⊢
              by_cases enough : (counts && decide (scanner.threshold ≤ counted.known)) = true
              · rw [if_pos enough] at done ⊢
                cases done
                exact credited
              · rw [if_neg enough] at done ⊢
                rw [List.foldl_cons, ← credited]
                exact inductionHypothesis done

/-- A scan reports what the matches that it takes add up to. -/
theorem scanWindow_tally
    (done : scanner.scanWindow window = .ok report) :
    report.findings = (scanner.tallyOf window (scanner.taken window)).result := by
  rw [scanWindow] at done
  split at done
  · cases done
  · rename_i final stopped counting
    cases done
    exact congrArg Tally.result (countFrom_credit counting)

/-! ## Excluded captures -/

/-- What the groups of a match have captured, made normal, as far as it is not blank. -/
def capturedTexts (scanner : Scanner) (window : Window) (found : Regex.Found) :
    List (List Char) :=
  (((List.range' 1 scanner.composite.groupCount).filterMap found.group?).map
    fun (start, stop) => normalText (slice window.text start stop)).filter (· ≠ [])

/-- A match has captured something that is not blank, and exclusions hit all of that. -/
def AllExcluded (scanner : Scanner) (window : Window) (found : Regex.Found) : Prop :=
  scanner.capturedTexts window found ≠ [] ∧
    ∀ text ∈ scanner.capturedTexts window found, scanner.isExcluded text = true

instance (scanner : Scanner) (window : Window) (found : Regex.Found) :
    Decidable (scanner.AllExcluded window found) :=
  inferInstanceAs (Decidable (_ ∧ _))

theorem AllExcluded.groupFindings_eq
    (all : scanner.AllExcluded window found) :
    scanner.groupFindings window found = [] := by
  rw [groupFindings, List.filterMap_eq_nil_iff]
  intro group numbered
  rw [groupFinding?]
  split
  · rename_i start stop slot captured named
    have dropped : ¬ scanner.Counts window start stop := by
      rintro ⟨filled, kept⟩
      have listed : normalText (slice window.text start stop) ∈
          scanner.capturedTexts window found := by
        rw [capturedTexts, List.mem_filter]
        exact ⟨List.mem_map.mpr ⟨(start, stop),
          List.mem_filterMap.mpr ⟨group, numbered, captured⟩, rfl⟩, decide_eq_true filled⟩
      rw [all.2 _ listed] at kept
      cases kept
    exact if_neg dropped
  · rfl

/-- A match as a fragment. -/
def wholeFragment (window : Window) (found : Regex.Found) : Fragment where
  text := wholeText window found
  startLine := window.lineOf found.start
  endLine := window.lineOf found.stop
  start := found.start
  stop := found.stop

/-- What a match adds that counts as a whole: a finding if its whole text describes a licence or
an owner, and a fragment otherwise. -/
def addWholeMatch (scanner : Scanner) (window : Window) (found : Regex.Found) (tally : Tally) :
    Tally :=
  match scanner.classifyWhole? (wholeText window found) with
  | some (party, kind) =>
      tally.addWhole
        (findingAt window party kind (wholeText window found) found.start found.stop)
  | none => tally.addFragment (wholeFragment window found)

theorem addWholeMatch_ne :
    scanner.addWholeMatch window found tally ≠ tally := by
  rw [addWholeMatch]
  split
  · exact Tally.addWhole_ne tally _
  · exact Tally.addFragment_ne tally _

/-- A whole match is passed over: it denies a copyright, or an exclusion hits it. -/
def PassedOver (scanner : Scanner) (whole : List Char) : Prop :=
  negated.matchesStart whole.toArray = true ∨ scanner.isExcluded whole = true

instance (scanner : Scanner) (whole : List Char) : Decidable (scanner.PassedOver whole) :=
  inferInstanceAs (Decidable (_ ∨ _))

theorem countWhole_eq :
    (scanner.countWhole window (wholeText window found) found tally).1 =
      if scanner.PassedOver (wholeText window found) then tally
      else scanner.addWholeMatch window found tally := by
  rw [countWhole]
  by_cases passed : scanner.PassedOver (wholeText window found)
  · rw [if_pos passed, if_pos (Bool.or_eq_true_iff.mpr passed)]
  · rw [if_neg passed, if_neg (fun either => passed (Bool.or_eq_true_iff.mp either)),
      addWholeMatch]
    cases scanner.classifyWhole? (wholeText window found) with
    | none => rfl
    | some owned => rfl

/-- A match of which all captures are excluded is dropped just when it is not looked at as a
whole or is passed over as one. Otherwise it adds what any match without captures does, though
the exclusions have hit what it has captured. -/
theorem excluded_dropped_iff
    (done : scanner.scanWindow window = .ok report)
    {before after : List Regex.Found}
    (taken : scanner.taken window = before ++ found :: after)
    (excluded : scanner.AllExcluded window found) :
    let prior := scanner.tallyOf window before
    let next := scanner.credit window prior found
    report.findings = (after.foldl (scanner.credit window) next).result ∧
      (next = prior ↔ prior.licenses ≠ 0 ∨ scanner.threshold < prior.fragments.count ∨
        scanner.PassedOver (wholeText window found)) ∧
      (next ≠ prior → next = scanner.addWholeMatch window found prior) := by
  intro prior next
  have none := excluded.groupFindings_eq
  have kept : ¬ scanner.LooksAtWhole window found prior → next = prior := by
    intro unseen
    have folded : next = (scanner.groupFindings window found).foldl Tally.addCapture prior :=
      if_neg unseen
    rw [folded, none]
    rfl
  have seen : scanner.LooksAtWhole window found prior →
      next = if scanner.PassedOver (wholeText window found) then prior
        else scanner.addWholeMatch window found prior := by
    intro whole
    have counted : next = (scanner.countWhole window (wholeText window found) found prior).1 :=
      if_pos whole
    rw [counted, countWhole_eq]
  refine ⟨?_, ?_, ?_⟩
  · rw [scanWindow_tally done, taken, tallyOf, List.foldl_append, List.foldl_cons]
    rfl
  · by_cases whole : scanner.LooksAtWhole window found prior
    · have few := Int.not_lt.mpr whole.2.2
      rw [seen whole]
      by_cases passed : scanner.PassedOver (wholeText window found)
      · rw [if_pos passed]
        exact iff_of_true rfl (Or.inr (Or.inr passed))
      · rw [if_neg passed]
        refine iff_of_false addWholeMatch_ne ?_
        rintro (licenses | many | passedToo)
        · exact licenses whole.2.1
        · exact few many
        · exact passed passedToo
    · refine iff_of_true (kept whole) ?_
      by_contra neither
      simp only [not_or, not_lt, ne_eq, not_not] at neither
      exact whole ⟨none, neither.1, neither.2.1⟩
  · intro changed
    by_cases whole : scanner.LooksAtWhole window found prior
    · have result := seen whole
      by_cases passed : scanner.PassedOver (wholeText window found)
      · rw [if_pos passed] at result
        exact absurd result changed
      · rw [if_neg passed] at result
        exact result
    · exact absurd (kept whole) changed

/-- Alpha is excluded where nothing stands beside it, and the match is reported as a fragment. -/
theorem excluded_dropped_alpha :
    ∃ scanner report found, Built { exclusions := ["^Alpha$"] } {} scanner ∧
      scanner.scanWindow ⟨"by Alpha".toList.toArray, fun _ => 1⟩ = .ok report ∧
      scanner.taken ⟨"by Alpha".toList.toArray, fun _ => 1⟩ = [found] ∧
      scanner.AllExcluded ⟨"by Alpha".toList.toArray, fun _ => 1⟩ found ∧
      report.findings ≠ [] := by
  obtain ⟨scanner, report, built, done, looked⟩ := of_tryOut
    (show tryOut { exclusions := ["^Alpha$"] } "by (?P<author_1>Alpha)" "by Alpha"
        (fun scanner window found =>
          scanner.taken window = [found] ∧ scanner.AllExcluded window found ∧
            ¬ (scanner.tallyOf window []).licenses ≠ 0 ∧
            ¬ scanner.threshold < (scanner.tallyOf window []).fragments.count ∧
            ¬ scanner.PassedOver (wholeText window found) ∧
            (scanner.addWholeMatch window found (scanner.tallyOf window [])).result ≠ []) =
              true by
      decide +kernel)
  obtain ⟨found, member, asked⟩ := looked
  obtain ⟨taken, excluded, noLicenses, few, notPassed, reported⟩ := of_decide_eq_true asked
  have only : scanner.taken ⟨"by Alpha".toList.toArray, fun _ => 1⟩ = [] ++ found :: [] := taken
  obtain ⟨findings, dropped, added⟩ := excluded_dropped_iff done only excluded
  have changed := added (fun same => (dropped.mp same).elim noLicenses
    (fun either => either.elim few notPassed))
  rw [List.foldl_nil, changed] at findings
  rw [← findings] at reported
  exact ⟨scanner, report, found, built, done, taken, excluded, reported⟩

/-! ## Fragments beside licences -/

theorem credit_licenses :
    (scanner.credit window tally found).licenses =
      tally.licenses + (scanner.groupFindings window found).countP (·.kind = .license) := by
  rw [credit]
  by_cases whole : scanner.LooksAtWhole window found tally
  · rw [if_pos whole, countWhole_eq, whole.1, List.countP_nil, Nat.add_zero]
    split
    · rfl
    · rw [addWholeMatch]
      split <;> rfl
  · rw [if_neg whole, Tally.licenses_addCaptures]

theorem tallyOf_licenses
    (founds : List Regex.Found) :
    (scanner.tallyOf window founds).licenses =
      (founds.flatMap (scanner.groupFindings window)).countP (·.kind = .license) := by
  have general : ∀ (founds : List Regex.Found) (tally : Tally),
      (founds.foldl (scanner.credit window) tally).licenses = tally.licenses +
        (founds.flatMap (scanner.groupFindings window)).countP (·.kind = .license) := by
    intro founds
    induction founds with
    | nil => exact fun tally => rfl
    | cons found rest inductionHypothesis =>
        intro tally
        rw [List.foldl_cons, inductionHypothesis, credit_licenses, List.flatMap_cons,
          List.countP_append, Nat.add_assoc]
  rw [tallyOf, general, Nat.zero_add]

/-- A finding for a match as a whole. -/
def IsWhole (scanner : Scanner) (window : Window) (found : Regex.Found) (finding : Finding) :
    Prop :=
  scanner.groupFindings window found = [] ∧
    ∃ party kind, scanner.classifyWhole? (wholeText window found) = some (party, kind) ∧
      finding = findingAt window party kind (wholeText window found) found.start found.stop

/-- A match adds the findings of its groups, or a single one for itself. -/
theorem credit_adds :
    ∃ added, (scanner.credit window tally found).findings = added.reverse ++ tally.findings ∧
      (added = scanner.groupFindings window found ∨
        ∃ finding, added = [finding] ∧ scanner.IsWhole window found finding) := by
  rw [credit]
  by_cases whole : scanner.LooksAtWhole window found tally
  · rw [if_pos whole, countWhole_eq]
    split
    · exact ⟨[], rfl, Or.inl whole.1.symm⟩
    · rw [addWholeMatch]
      split
      · rename_i party kind described
        exact ⟨[_], rfl, Or.inr ⟨_, rfl, whole.1, party, kind, described, rfl⟩⟩
      · exact ⟨[], rfl, Or.inl whole.1.symm⟩
  · rw [if_neg whole, Tally.findings_addCaptures]
    exact ⟨_, rfl, Or.inl rfl⟩

theorem credit_findings
    {finding : Finding}
    (member : finding ∈ (scanner.credit window tally found).findings) :
    finding ∈ tally.findings ∨ finding ∈ scanner.groupFindings window found ∨
      scanner.IsWhole window found finding := by
  obtain ⟨added, is, kind⟩ := @credit_adds scanner window found tally
  rw [is, List.mem_append, List.mem_reverse] at member
  rcases member with new | before
  · refine Or.inr ?_
    rcases kind with ofGroups | ⟨single, only, isWhole⟩
    · exact Or.inl (ofGroups ▸ new)
    · rw [only] at new
      exact Or.inr (List.mem_singleton.mp new ▸ isWhole)
  · exact Or.inl before

theorem tallyOf_findings
    {founds : List Regex.Found}
    {finding : Finding}
    (member : finding ∈ (scanner.tallyOf window founds).findings) :
    ∃ found ∈ founds, finding ∈ scanner.groupFindings window found ∨
      scanner.IsWhole window found finding := by
  induction founds using List.reverseRecOn with
  | nil => exact absurd member List.not_mem_nil
  | append_singleton before found inductionHypothesis =>
      rw [tallyOf, List.foldl_append, List.foldl_cons, List.foldl_nil] at member
      rcases credit_findings member with earlier | added
      · obtain ⟨other, listed, yields⟩ := inductionHypothesis earlier
        exact ⟨other, List.mem_append_left _ listed, yields⟩
      · exact ⟨found, List.mem_append_right _ (List.mem_singleton.mpr rfl), added⟩

/-- The findings of a scan are those of the groups of its matches and of its matches as wholes,
and then the fragments, which only a licence that a group has found can hide: a match that is a
licence as a whole does not. -/
theorem fragments_hidden_iff
    (done : scanner.scanWindow window = .ok report) :
    let tally := scanner.tallyOf window (scanner.taken window)
    report.findings = tally.findings.reverse ++
        (if ∃ finding ∈ (scanner.taken window).flatMap (scanner.groupFindings window),
          finding.kind = .license
        then []
        else tally.fragments.findings) ∧
      ∀ finding ∈ tally.findings, ∃ found ∈ scanner.taken window,
        finding ∈ scanner.groupFindings window found ∨ scanner.IsWhole window found finding := by
  intro tally
  refine ⟨?_, fun finding member => tallyOf_findings member⟩
  rw [scanWindow_tally done, Tally.result, tallyOf_licenses]
  congr 1
  by_cases license : ∃ finding ∈ (scanner.taken window).flatMap (scanner.groupFindings window),
      finding.kind = .license
  · have counted : 0 < ((scanner.taken window).flatMap (scanner.groupFindings window)).countP
        (·.kind = .license) := by
      rw [List.countP_pos_iff]
      simpa using license
    rw [if_pos license, if_neg counted.ne']
  · have none : ((scanner.taken window).flatMap (scanner.groupFindings window)).countP
        (·.kind = .license) = 0 := by
      rw [List.countP_eq_zero]
      intro finding member isLicense
      exact license ⟨finding, member, of_decide_eq_true isLicense⟩
    rw [if_neg license, if_pos none]

/-- The second match is a licence as a whole, and the first one is reported beside it. -/
theorem fragments_hidden_liable :
    ∃ scanner report, Built { thirdLicenses := [".*liable"] } {} scanner ∧
      scanner.scanWindow ⟨"breach, damages liable".toList.toArray, fun _ => 1⟩ = .ok report ∧
      (∃ finding ∈ report.findings, finding.start = 8 ∧ finding.kind = .license ∧
        finding.party = .third) ∧
      ∃ finding ∈ report.findings, finding.start = 0 ∧ finding.kind = .license ∧
        finding.party = .unknown := by
  obtain ⟨scanner, report, built, done, looked⟩ := of_tryOut
    (show tryOut { thirdLicenses := [".*liable"] } "breach|damages liable"
        "breach, damages liable"
        (fun scanner window _ =>
          (scanner.taken window).flatMap (scanner.groupFindings window) = [] ∧
            (scanner.tallyOf window (scanner.taken window)).findings.any (fun finding =>
              finding.start = 8 ∧ finding.kind = .license ∧ finding.party = .third) ∧
            (scanner.tallyOf window (scanner.taken window)).fragments.findings.any
              (fun finding => finding.start = 0 ∧ finding.kind = .license ∧
                finding.party = .unknown)) = true by
      decide +kernel)
  obtain ⟨found, member, asked⟩ := looked
  obtain ⟨noGroups, license, fragment⟩ := of_decide_eq_true asked
  obtain ⟨direct, directIn, directIs⟩ := List.any_eq_true.mp license
  obtain ⟨kept, keptIn, keptIs⟩ := List.any_eq_true.mp fragment
  obtain ⟨findings, -⟩ := fragments_hidden_iff done
  rw [noGroups, if_neg (by simp)] at findings
  refine ⟨scanner, report, built, done, ⟨direct, ?_, of_decide_eq_true directIs⟩,
    kept, ?_, of_decide_eq_true keptIs⟩
  · rw [findings]
    exact List.mem_append_left _ (List.mem_reverse.mpr directIn)
  · rw [findings]
    exact List.mem_append_right _ keptIn

end Scanner

end NoticeScan
