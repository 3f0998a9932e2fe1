import NoticeScan.Proofs.FirstGroup
import NoticeScan.Proofs.Ordering

/-!
# Early stop

A scan ends behind the match at which enough findings with a known party have been counted. It
counts in two places, once for each group and once for a match as a whole, and asks only behind
those matches that may have added to the count. Since it does ask behind each of them, less than
enough is known in front of every match that is taken, and the last one adds at most one finding
for each group. Fragments are counted on their own.
-/

namespace NoticeScan

open NoticeScan.Scan

/-- How many findings have a known party. -/
def knownCount (findings : List Finding) : Nat :=
  findings.countP (·.party ≠ .unknown)

theorem knownCount_cons_of_known
    {finding : Finding}
    (known : finding.party ≠ .unknown)
    (findings : List Finding) :
    knownCount (finding :: findings) = knownCount findings + 1 :=
  List.countP_cons_of_pos (decide_eq_true known)

theorem knownCount_cons_of_unknown
    {finding : Finding}
    (unknown : finding.party = .unknown)
    (findings : List Finding) :
    knownCount (finding :: findings) = knownCount findings :=
  List.countP_cons_of_neg (by simpa using unknown)

theorem knownCount_append
    (first second : List Finding) :
    knownCount (first ++ second) = knownCount first + knownCount second :=
  List.countP_append

theorem knownCount_reverse
    (findings : List Finding) :
    knownCount findings.reverse = knownCount findings :=
  List.countP_reverse

theorem knownCount_le_length
    (findings : List Finding) :
    knownCount findings ≤ findings.length :=
  List.countP_le_length

/-! ## Fragments that are kept -/

namespace Scan.Fragments

/-- No more fragments are kept than may be, and no more than have been counted. -/
structure Few (fragments : Fragments) : Prop where
  limited : (fragments.toList.length : Int) ≤ fragments.limit
  counted : fragments.toList.length ≤ fragments.count

theorem few_nil
    {limit : Int}
    (natural : 0 ≤ limit) :
    Few { limit := limit } where
  limited := natural
  counted := Nat.le_refl _

variable {fragments : Fragments}

theorem Few.start
    (few : fragments.Few)
    (next : Fragment) :
    (fragments.start next).Few ∧ (fragments.start next).limit = fragments.limit := by
  obtain ⟨limited, counted⟩ := few
  by_cases kept : (fragments.count : Int) < fragments.limit
  · have more := congrArg List.length (@toList_start_kept fragments next kept)
    rw [List.length_append, List.length_singleton] at more
    rw [Fragments.start, if_pos kept] at more ⊢
    refine ⟨⟨?_, ?_⟩, rfl⟩ <;> dsimp only <;> omega
  · rw [start_full kept]
    exact ⟨⟨limited, counted.trans (Nat.le_succ _)⟩, rfl⟩

theorem Few.add
    (few : fragments.Few)
    (next : Fragment) :
    (fragments.add next).Few ∧ (fragments.add next).limit = fragments.limit := by
  cases isLast : fragments.last with
  | none =>
      rw [Fragments.add, isLast]
      exact few.start next
  | some prior =>
      by_cases close : next.isCloseTo prior = true
      · have same : (fragments.add next).toList.length = fragments.toList.length := by
          rw [add_of_close isLast close, toList, toList, isLast]
          simp
        refine ⟨⟨?_, ?_⟩, ?_⟩
        · rw [same, add_of_close isLast close]
          exact few.limited
        · rw [same, add_of_close isLast close]
          exact few.counted
        · rw [add_of_close isLast close]
      · rw [Fragments.add, isLast]
        dsimp only
        rw [if_neg close]
        exact few.start next

/-- Fragments have no known party. -/
theorem knownCount_findings
    (fragments : Fragments) :
    knownCount fragments.findings = 0 := by
  rw [knownCount, List.countP_eq_zero, findings, List.forall_mem_map]
  exact fun fragment _ known => of_decide_eq_true known rfl

end Scan.Fragments

namespace Tally

theorem known_addCaptures
    (captures : List Finding)
    (tally : Tally) :
    (captures.foldl addCapture tally).known = tally.known + knownCount captures := by
  induction captures generalizing tally with
  | nil => rfl
  | cons finding rest inductionHypothesis =>
      have one : (tally.addCapture finding).known =
          if finding.party = .unknown then tally.known else tally.known + 1 := rfl
      rw [List.foldl_cons, inductionHypothesis, one]
      by_cases unknown : finding.party = .unknown
      · rw [if_pos unknown, knownCount_cons_of_unknown unknown]
      · rw [if_neg unknown, knownCount_cons_of_known unknown]
        omega

end Tally

namespace Scanner

variable {rules : RuleSet} {limits : Pattern.Limits} {size threshold : Int} {scanner : Scanner}
  {window : Window} {found : Regex.Found} {founds : List Regex.Found} {tally : Tally}
  {report : Report}

/-! ## What one match adds -/

/-- A match that is something as a whole has a known party. -/
theorem classifyWhole?_ne_unknown
    {whole : List Char}
    {party : Party}
    {kind : Kind}
    (classified : scanner.classifyWhole? whole = some (party, kind)) :
    party ≠ .unknown := by
  rintro rfl
  rw [classifyWhole?] at classified
  split at classified
  · rename_i role known
    cases classified
    exact describing?_ne_unknown _ _ known
  · obtain ⟨role, known, same⟩ := Option.map_eq_some_iff.mp classified
    cases same
    rw [knownOwner?] at known
    split at known
    · cases known
    · exact describing?_ne_unknown _ _ known

/-- The count stays that of the findings with a known party. -/
theorem credit_known
    (counted : tally.known = knownCount tally.findings) :
    (scanner.credit window tally found).known =
      knownCount (scanner.credit window tally found).findings := by
  rw [credit]
  by_cases whole : scanner.LooksAtWhole window found tally
  · rw [if_pos whole, countWhole_eq]
    split
    · exact counted
    · rw [addWholeMatch]
      split
      · rename_i party kind classified
        have known : (findingAt window party kind (wholeText window found) found.start
            found.stop).party ≠ .unknown := classifyWhole?_ne_unknown classified
        exact (congrArg Nat.succ counted).trans (knownCount_cons_of_known known _).symm
      · exact counted
  · rw [if_neg whole, Tally.known_addCaptures, Tally.findings_addCaptures, knownCount_append,
      knownCount_reverse, counted, Nat.add_comm]

theorem length_groupFindings_le :
    (scanner.groupFindings window found).length ≤ scanner.composite.groupCount :=
  (List.length_filterMap_le _ _).trans_eq List.length_range'

/-- A match adds at most one finding for each group, and at most one if it is counted as a whole. -/
theorem knownCount_credit_le
    (some : 1 ≤ scanner.composite.groupCount) :
    knownCount (scanner.credit window tally found).findings ≤
      knownCount tally.findings + scanner.composite.groupCount := by
  obtain ⟨added, is, kind⟩ := @credit_adds scanner window found tally
  have few : added.length ≤ scanner.composite.groupCount := by
    rcases kind with rfl | ⟨finding, rfl, -⟩
    · exact length_groupFindings_le
    · exact some
  rw [is, knownCount_append, knownCount_reverse, Nat.add_comm]
  exact Nat.add_le_add_left ((knownCount_le_length added).trans few) _

/-- A match after which the scan does not ask whether enough is known adds nothing to the count. -/
theorem known_of_countMatch
    {counted : Tally}
    (done : scanner.countMatch window found tally = .ok (counted, false)) :
    counted.known = tally.known := by
  have result := countMatch_eq done
  split at result
  · rw [countWhole] at result
    split at result
    · cases result
      rfl
    · split at result
      · cases result
      · cases result
        rfl
  · cases result

theorem credit_few
    (few : tally.fragments.Few) :
    (scanner.credit window tally found).fragments.Few ∧
      (scanner.credit window tally found).fragments.limit = tally.fragments.limit := by
  rcases @credit_fragments scanner window found tally with same | more
  · rw [same]
    exact ⟨few, rfl⟩
  · rw [more]
    exact few.add _

/-! ## What a run of matches adds -/

theorem tallyOf_known
    (founds : List Regex.Found) :
    (scanner.tallyOf window founds).known =
      knownCount (scanner.tallyOf window founds).findings := by
  induction founds using List.reverseRecOn with
  | nil => rfl
  | append_singleton before found inductionHypothesis =>
      rw [tallyOf_concat]
      exact credit_known inductionHypothesis

theorem tallyOf_few
    (natural : 0 ≤ scanner.threshold)
    (founds : List Regex.Found) :
    (scanner.tallyOf window founds).fragments.Few ∧
      (scanner.tallyOf window founds).fragments.limit = scanner.threshold := by
  induction founds using List.reverseRecOn with
  | nil => exact ⟨Fragments.few_nil natural, rfl⟩
  | append_singleton before found inductionHypothesis =>
      obtain ⟨few, limit⟩ := inductionHypothesis
      rw [tallyOf_concat]
      obtain ⟨fewToo, same⟩ := @credit_few scanner window found _ few
      exact ⟨fewToo, same.trans limit⟩

theorem knownCount_result :
    knownCount tally.result = knownCount tally.findings := by
  rw [Tally.result, knownCount_append, knownCount_reverse]
  split
  · rw [Fragments.knownCount_findings, Nat.add_zero]
  · rfl

/-! ## Where a scan stops -/

/-- In front of every match that a run takes, less than enough is known. -/
theorem known_lt_of_takenFrom
    {bound : Nat}
    {search : Regex.Search}
    {before after : List Regex.Found}
    (few : (tally.known : Int) < scanner.threshold)
    (taken : scanner.takenFrom window bound search tally = before ++ found :: after) :
    ((before.foldl (scanner.credit window) tally).known : Int) < scanner.threshold := by
  induction bound generalizing search tally before with
  | zero => simp [takenFrom] at taken
  | succ bound inductionHypothesis =>
      cases before with
      | nil => exact few
      | cons first earlier =>
          rw [takenFrom] at taken
          cases next : scanner.composite.next? window.text search with
          | none => simp [next] at taken
          | some step =>
              obtain ⟨here, behind⟩ := step
              rw [next] at taken
              dsimp only at taken
              cases counting : scanner.countMatch window here tally with
              | error error => simp [counting] at taken
              | ok result =>
                  obtain ⟨counted, counts⟩ := result
                  rw [counting] at taken
                  dsimp only at taken
                  split at taken
                  · simp at taken
                  · rename_i goesOn
                    obtain ⟨rfl, rest⟩ := List.cons.inj taken
                    rw [List.foldl_cons, ← countMatch_credit counting]
                    refine inductionHypothesis ?_ rest
                    cases counts with
                    | false =>
                        rw [known_of_countMatch counting]
                        exact few
                    | true => simpa using goesOn

/-- A run after which less than enough is known has taken all matches. -/
theorem takenFrom_of_known_lt
    {bound : Nat}
    {search : Regex.Search}
    {final : Tally}
    {stopped : Option EarlyStop}
    (done : scanner.countFrom window bound search tally = .ok (final, stopped))
    (few : (final.known : Int) < scanner.threshold) :
    scanner.takenFrom window bound search tally =
      scanner.composite.findFrom window.text bound search := by
  induction bound generalizing search tally with
  | zero => rfl
  | succ bound inductionHypothesis =>
      rw [countFrom] at done
      rw [takenFrom, Regex.findFrom]
      cases next : scanner.composite.next? window.text search with
      | none => rfl
      | some step =>
          obtain ⟨found, after⟩ := step
          rw [next] at done
          dsimp only at done ⊢
          cases counting : scanner.countMatch window found tally with
          | error error =>
              rw [counting] at done
              cases done
          | ok result =>
              obtain ⟨counted, counts⟩ := result
              rw [counting] at done
              dsimp only at done ⊢
              by_cases enough : (counts && decide (scanner.threshold ≤ counted.known)) = true
              · rw [if_pos enough] at done
                cases done
                have reached := of_decide_eq_true (Bool.and_eq_true_iff.mp enough).2
                exact absurd few (Int.not_lt.mpr reached)
              · rw [if_neg enough] at done ⊢
                rw [inductionHypothesis done]

/-- A match is taken only if less than enough findings with a known party have been recorded before
it, so the one that makes them enough is the last one; and a scan that does not come to enough
takes all matches. A report has at most one such finding for each group beyond those before the
last match, and as many fragments as findings are enough, at most. -/
theorem earlyStop_bounds
    (made : build rules limits size threshold = .ok scanner)
    (atLeastOne : 1 ≤ threshold)
    (window : Window) :
    (∀ before found after, scanner.taken window = before ++ found :: after →
        (knownCount (scanner.tallyOf window before).findings : Int) < threshold ∧
        (threshold ≤ knownCount (scanner.tallyOf window (before ++ [found])).findings →
          after = [])) ∧
      ∀ report, scanner.scanWindow window = .ok report →
        let tally := scanner.tallyOf window (scanner.taken window)
        report.findings = tally.result ∧
        (knownCount report.findings < threshold →
          scanner.taken window = scanner.composite.findAll window.text) ∧
        knownCount report.findings ≤ threshold - 1 + scanner.composite.groupCount ∧
        tally.fragments.findings.length ≤ threshold := by
  have some := one_le_groupCount made
  obtain rfl : scanner.threshold = threshold := threshold_of_build made
  have start : ((0 : Nat) : Int) < scanner.threshold := atLeastOne
  have inFront : ∀ before found after, scanner.taken window = before ++ found :: after →
      (knownCount (scanner.tallyOf window before).findings : Int) < scanner.threshold := by
    intro before found after taken
    rw [← tallyOf_known]
    exact known_lt_of_takenFrom start taken
  refine ⟨fun before found after taken => ⟨inFront before found after taken, ?_⟩, ?_⟩
  · intro enough
    cases after with
    | nil => rfl
    | cons next later =>
        have less := inFront (before ++ [found]) next later (by rw [taken]; simp)
        exact absurd less (Int.not_lt.mpr enough)
  · intro report done
    have result := scanWindow_tally done
    have known : knownCount report.findings =
        knownCount (scanner.tallyOf window (scanner.taken window)).findings := by
      rw [result, knownCount_result]
    refine ⟨result, ?_, ?_, ?_⟩
    · intro less
      rw [scanWindow] at done
      split at done
      · cases done
      · rename_i final stopped counting
        refine takenFrom_of_known_lt counting ?_
        rw [countFrom_credit counting]
        rw [known, ← tallyOf_known] at less
        exact less
    · rw [known]
      cases last : scanner.taken window using List.reverseRecOn with
      | nil =>
          have none : knownCount (scanner.tallyOf window []).findings = 0 := rfl
          omega
      | append_singleton before found =>
          have less := inFront before found [] last
          have more := @knownCount_credit_le scanner window found
            (scanner.tallyOf window before) some
          rw [tallyOf_concat]
          omega
    · obtain ⟨few, limit⟩ := @tallyOf_few scanner window (by omega) (scanner.taken window)
      rw [Fragments.findings, List.length_map, ← limit]
      exact few.limited

/-- With the usual bounds, ten findings are enough. -/
theorem earlyStop_bounds_usual :
    ∃ scanner report, ofRules estateRules = .ok scanner ∧ (1 : Int) ≤ defaultThreshold ∧
      scanner.scanWindow (.ofText "Copyright 2001 Alpha".toList) = .ok report ∧
        (knownCount report.findings : Int) ≤ 9 + scanner.composite.groupCount := by
  have checked : estateRules.issues = .ok [] := by decide +kernel
  have contained : estateRules.SelfContained := by decide +kernel
  obtain ⟨scanner, made, -, reports⟩ := (built_iff_noIssues checked).2.2 rfl contained
  have atLeastOne : (1 : Int) ≤ defaultThreshold := by decide
  obtain ⟨report, done⟩ := reports (.ofText "Copyright 2001 Alpha".toList)
  obtain ⟨-, reported⟩ :=
    earlyStop_bounds made atLeastOne (.ofText "Copyright 2001 Alpha".toList)
  exact ⟨scanner, report, made, atLeastOne, done, (reported report done).2.2.1⟩

-- The last match can add one finding for each group: one is enough, and two are reported.
example :
    ((lookingFor {} "(?P<author_1>a)(?P<author_2>b)").toOption.bind fun scanner =>
      ({ scanner with threshold := 1 }.scanWindow (.ofText "abab".toList)).toOption).map
        (fun report => knownCount report.findings) = some (1 - 1 + 2) := by
  decide +kernel

end Scanner

end NoticeScan
