import Mathlib
import NoticeScan.Scan.Findings

/-!
# What a scan makes of its matches

A match contributes one finding for each of its groups that has captured something which counts,
and a finding or a fragment of its own where no group has. The findings of a match stay in what
the scan reports, whatever comes after it.
-/

namespace NoticeScan

open NoticeScan.Scan

/-! ## Tallies -/

namespace Tally

theorem findings_addCaptures
    (captures : List Finding)
    (tally : Tally) :
    (captures.foldl addCapture tally).findings = captures.reverse ++ tally.findings := by
  induction captures generalizing tally with
  | nil => rfl
  | cons finding rest inductionHypothesis =>
      rw [List.foldl_cons, inductionHypothesis, List.reverse_cons, List.append_assoc]
      rfl

theorem fragments_addCaptures
    (captures : List Finding)
    (tally : Tally) :
    (captures.foldl addCapture tally).fragments = tally.fragments := by
  induction captures generalizing tally with
  | nil => rfl
  | cons finding rest inductionHypothesis =>
      rw [List.foldl_cons, inductionHypothesis]
      rfl

theorem mem_result
    {tally : Tally}
    {finding : Finding}
    (member : finding ∈ tally.findings) :
    finding ∈ tally.result := by
  unfold result
  exact List.mem_append_left _ (List.mem_reverse.mpr member)

end Tally

namespace Scanner

/-! ## One match -/

/-- The text of a whole match, made normal. -/
def wholeText (window : Window) (found : Regex.Found) : List Char :=
  normalText (slice window.text found.start found.stop)

/-- A capture that counts: it is not empty when it is made normal, and no exclusion hits it. -/
def Counts (scanner : Scanner) (window : Window) (start stop : Nat) : Prop :=
  normalText (slice window.text start stop) ≠ [] ∧
    scanner.isExcluded (normalText (slice window.text start stop)) = false

instance (scanner : Scanner) (window : Window) (start stop : Nat) :
    Decidable (scanner.Counts window start stop) :=
  inferInstanceAs (Decidable (_ ∧ _))

/-- The finding for what a slot has captured in a match. -/
def captureFinding (scanner : Scanner) (window : Window) (found : Regex.Found) (slot : Slot)
    (start stop : Nat) : Finding :=
  let (party, kind) := scanner.classify (normalText (slice window.text start stop)) slot
  findingAt window party kind (wholeText window found) start stop

/-- The finding that a group of a match yields. -/
def groupFinding? (scanner : Scanner) (window : Window) (found : Regex.Found) (group : Nat) :
    Option Finding :=
  match found.group? group, scanner.slot? group with
  | some (start, stop), some slot =>
      if scanner.Counts window start stop then
        some (scanner.captureFinding window found slot start stop)
      else
        none
  | _, _ => none

/-- The findings that the groups of a match yield, in the order of the groups. -/
def groupFindings (scanner : Scanner) (window : Window) (found : Regex.Found) : List Finding :=
  (List.range' 1 scanner.composite.groupCount).filterMap (scanner.groupFinding? window found)

theorem mem_groupFindings
    {scanner : Scanner}
    {window : Window}
    {found : Regex.Found}
    {group start stop : Nat}
    {slot : Slot}
    (numbered : group ∈ List.range' 1 scanner.composite.groupCount)
    (captured : found.group? group = some (start, stop))
    (named : scanner.slot? group = some slot)
    (counts : scanner.Counts window start stop) :
    scanner.captureFinding window found slot start stop ∈ scanner.groupFindings window found := by
  apply List.mem_filterMap.mpr
  refine ⟨group, numbered, ?_⟩
  simp only [groupFinding?, captured, named, if_pos counts]

/-- Every finding of the groups of a match is one for what some group has captured. -/
theorem exists_capture_of_mem
    {scanner : Scanner}
    {window : Window}
    {found : Regex.Found}
    {finding : Finding}
    (member : finding ∈ scanner.groupFindings window found) :
    ∃ group slot start stop, 0 < group ∧ found.group? group = some (start, stop) ∧
      scanner.Counts window start stop ∧
      finding = scanner.captureFinding window found slot start stop := by
  obtain ⟨group, numbered, yields⟩ := List.mem_filterMap.mp member
  rw [groupFinding?] at yields
  split at yields
  · rename_i start stop slot captured _
    split at yields
    · rename_i counts
      cases yields
      exact ⟨group, slot, start, stop, (List.mem_range'_1.mp numbered).1, captured, counts, rfl⟩
    · cases yields
  · cases yields

theorem countGroup_eq
    {scanner : Scanner}
    {window : Window}
    {found : Regex.Found}
    {tally next : Tally}
    {group : Nat}
    (done : scanner.countGroup window (wholeText window found) found tally group = .ok next) :
    next = (scanner.groupFinding? window found group).elim tally tally.addCapture := by
  unfold countGroup at done
  unfold groupFinding?
  cases captured : found.group? group with
  | none =>
      simp only [captured, Except.ok.injEq] at done
      simp [done]
  | some span =>
      obtain ⟨start, stop⟩ := span
      simp only [captured] at done
      by_cases counts : scanner.Counts window start stop
      · have kept :
            ((normalText (slice window.text start stop)).isEmpty ||
              scanner.isExcluded (normalText (slice window.text start stop))) = false := by
          simpa [Counts] using counts
        simp only [kept, Bool.false_eq_true, if_false] at done
        cases named : scanner.slot? group with
        | none => simp [named] at done
        | some slot =>
            simp only [named, Except.ok.injEq] at done
            simp only [if_pos counts, Option.elim_some]
            exact done.symm
      · have dropped :
            ((normalText (slice window.text start stop)).isEmpty ||
              scanner.isExcluded (normalText (slice window.text start stop))) = true := by
          by_contra kept
          exact counts (by simpa [Counts] using kept)
        simp only [dropped, if_true, Except.ok.injEq] at done
        cases scanner.slot? group <;> simp [counts, done]

theorem countGroups_eq
    {scanner : Scanner}
    {window : Window}
    {found : Regex.Found}
    {tally next : Tally}
    (done : scanner.countGroups window (wholeText window found) found tally = .ok next) :
    next = (scanner.groupFindings window found).foldl Tally.addCapture tally := by
  unfold countGroups at done
  unfold groupFindings
  generalize List.range' 1 scanner.composite.groupCount = groups at done ⊢
  induction groups generalizing tally with
  | nil =>
      simp only [List.foldlM_nil] at done
      cases done
      rfl
  | cons group rest inductionHypothesis =>
      rw [List.foldlM_cons] at done
      cases first : scanner.countGroup window (wholeText window found) found tally group with
      | error error =>
          rw [first] at done
          cases done
      | ok between =>
          rw [first] at done
          have counted := inductionHypothesis done
          rw [countGroup_eq first] at counted
          rw [counted, List.filterMap_cons]
          cases scanner.groupFinding? window found group <;> rfl

/-- Whether a match is looked at as a whole: no group of it yields a finding, no group has found
a licence before, and few fragments have been found. -/
def LooksAtWhole (scanner : Scanner) (window : Window) (found : Regex.Found) (tally : Tally) :
    Prop :=
  scanner.groupFindings window found = [] ∧ tally.licenses = 0 ∧
    (tally.fragments.count : Int) ≤ scanner.threshold

instance (scanner : Scanner) (window : Window) (found : Regex.Found) (tally : Tally) :
    Decidable (scanner.LooksAtWhole window found tally) :=
  inferInstanceAs (Decidable (_ ∧ _))

/-- What a match that is counted leaves behind. -/
theorem countMatch_eq
    {scanner : Scanner}
    {window : Window}
    {found : Regex.Found}
    {tally : Tally}
    {result : Tally × Bool}
    (done : scanner.countMatch window found tally = .ok result) :
    result =
      if scanner.LooksAtWhole window found tally then
        scanner.countWhole window (wholeText window found) found tally
      else
        ((scanner.groupFindings window found).foldl Tally.addCapture tally, true) := by
  have folded : normalText (slice window.text found.start found.stop) = wholeText window found :=
    rfl
  simp only [countMatch, folded] at done
  cases groups : scanner.countGroups window (wholeText window found) found tally with
  | error error => simp [groups] at done
  | ok counted =>
      have countedEq := countGroups_eq groups
      simp only [groups] at done
      have sameLength :
          (counted.findings.length = tally.findings.length) ↔
            scanner.groupFindings window found = [] := by
        rw [countedEq, Tally.findings_addCaptures, List.length_append, List.length_reverse,
          Nat.add_eq_right, List.length_eq_zero_iff]
      by_cases whole : scanner.LooksAtWhole window found tally
      · have untouched : counted = tally := by
          rw [countedEq, whole.1]
          rfl
        rw [if_pos whole]
        subst untouched
        simpa [whole.2.1, whole.2.2] using done.symm
      · rw [if_neg whole, ← countedEq]
        have taken :
            (decide (counted.findings.length = tally.findings.length) &&
              decide (counted.licenses = 0) &&
              decide ((counted.fragments.count : Int) ≤ scanner.threshold)) = false := by
          by_contra all
          simp only [Bool.not_eq_false, Bool.and_eq_true, decide_eq_true_eq, sameLength] at all
          obtain ⟨⟨none, licenses⟩, few⟩ := all
          have untouched : counted = tally := by
            rw [countedEq, none]
            rfl
          rw [untouched] at licenses few
          exact whole ⟨none, licenses, few⟩
        simpa [taken] using done.symm

theorem countWhole_findings
    (scanner : Scanner)
    (window : Window)
    (whole : List Char)
    (found : Regex.Found)
    (tally : Tally) :
    tally.findings <:+ (scanner.countWhole window whole found tally).1.findings := by
  unfold countWhole
  split
  · exact List.suffix_refl _
  · split
    · exact List.suffix_cons _ _
    · exact List.suffix_refl _

/-- The findings of the groups come on top of those from before, and nothing is taken away. -/
theorem countMatch_findings
    {scanner : Scanner}
    {window : Window}
    {found : Regex.Found}
    {tally counted : Tally}
    {counts : Bool}
    (done : scanner.countMatch window found tally = .ok (counted, counts)) :
    ((scanner.groupFindings window found).reverse ++ tally.findings) <:+ counted.findings := by
  have result := countMatch_eq done
  by_cases whole : scanner.LooksAtWhole window found tally
  · rw [if_pos whole] at result
    have kept := countWhole_findings scanner window (wholeText window found) found tally
    rw [← result] at kept
    rw [whole.1]
    exact kept
  · rw [if_neg whole, Prod.mk.injEq] at result
    rw [result.1, Tally.findings_addCaptures]

/-! ## A run -/

/-- The matches that a scan takes, at most `bound` of them. -/
def takenFrom (scanner : Scanner) (window : Window) :
    Nat → Regex.Search → Tally → List Regex.Found
  | 0, _, _ => []
  | bound + 1, search, tally =>
      match scanner.composite.next? window.text search with
      | none => []
      | some (found, after) =>
          match scanner.countMatch window found tally with
          | .error _ => [found]
          | .ok (counted, counts) =>
              if counts && scanner.threshold ≤ counted.known then
                [found]
              else
                found :: takenFrom scanner window bound after counted

/-- The matches that a scan of a window takes: all those before it stops, and the one at which
it stops. -/
def taken (scanner : Scanner) (window : Window) : List Regex.Found :=
  scanner.takenFrom window (Regex.matchBound window.text) {}
    { fragments := { limit := scanner.threshold } }

/-- A scan takes the matches of the composite expression from the first one on. -/
theorem takenFrom_findFrom
    (scanner : Scanner)
    (window : Window)
    (bound : Nat)
    (search : Regex.Search)
    (tally : Tally) :
    scanner.takenFrom window bound search tally <+:
      scanner.composite.findFrom window.text bound search := by
  induction bound generalizing search tally with
  | zero => exact List.nil_prefix
  | succ bound inductionHypothesis =>
      unfold takenFrom Regex.findFrom
      cases next : scanner.composite.next? window.text search with
      | none => exact List.nil_prefix
      | some step =>
          obtain ⟨found, after⟩ := step
          simp only
          split
          · exact List.prefix_append [found] _
          · split
            · exact List.prefix_append [found] _
            · exact (List.prefix_cons_inj found).mpr (inductionHypothesis after _)

theorem taken_findAll
    (scanner : Scanner)
    (window : Window) :
    scanner.taken window <+: scanner.composite.findAll window.text :=
  scanner.takenFrom_findFrom window _ _ _

/-- The first match that there is is taken first. -/
theorem taken_of_next?
    {scanner : Scanner}
    {window : Window}
    {found : Regex.Found}
    {after : Regex.Search}
    (first : scanner.composite.next? window.text {} = some (found, after)) :
    [found] <+: scanner.taken window := by
  have bound : Regex.matchBound window.text = 2 * window.text.size + 1 + 1 := rfl
  rw [taken, bound, takenFrom, first]
  dsimp only
  split
  · exact List.prefix_rfl
  · split
    · exact List.prefix_rfl
    · exact List.prefix_append [found] _

/-- A run keeps the findings it starts with and adds those of the groups of every match that it
takes. -/
theorem countFrom_keeps
    {scanner : Scanner}
    {window : Window}
    {bound : Nat}
    {search : Regex.Search}
    {tally final : Tally}
    {stopped : Option EarlyStop}
    (done : scanner.countFrom window bound search tally = .ok (final, stopped)) :
    tally.findings ⊆ final.findings ∧
      ∀ found ∈ scanner.takenFrom window bound search tally,
        scanner.groupFindings window found ⊆ final.findings := by
  induction bound generalizing search tally with
  | zero =>
      simp only [countFrom, Except.ok.injEq, Prod.mk.injEq] at done
      rw [done.1]
      exact ⟨List.Subset.refl _, by simp [takenFrom]⟩
  | succ bound inductionHypothesis =>
      unfold countFrom at done
      unfold takenFrom
      cases next : scanner.composite.next? window.text search with
      | none =>
          simp only [next, Except.ok.injEq, Prod.mk.injEq] at done
          rw [done.1]
          exact ⟨List.Subset.refl _, by simp⟩
      | some step =>
          obtain ⟨found, after⟩ := step
          simp only [next] at done ⊢
          cases counting : scanner.countMatch window found tally with
          | error error => simp [counting] at done
          | ok result =>
              obtain ⟨counted, counts⟩ := result
              simp only [counting] at done ⊢
              have added := (countMatch_findings counting).subset
              have kept : tally.findings ⊆ counted.findings :=
                fun finding member => added (List.mem_append_right _ member)
              have ofGroups : scanner.groupFindings window found ⊆ counted.findings :=
                fun finding member =>
                  added (List.mem_append_left _ (List.mem_reverse.mpr member))
              split at done
              · rename_i enough
                simp only [Except.ok.injEq, Prod.mk.injEq] at done
                rw [if_pos enough, ← done.1]
                refine ⟨kept, ?_⟩
                intro other member
                rw [List.mem_singleton.mp member]
                exact ofGroups
              · rename_i notEnough
                obtain ⟨keptAfter, ofRest⟩ := inductionHypothesis done
                rw [if_neg notEnough]
                refine ⟨fun finding member => keptAfter (kept member), ?_⟩
                intro other member
                rcases List.mem_cons.mp member with rfl | rest
                · exact fun finding member => keptAfter (ofGroups member)
                · exact ofRest other rest

/-- What the groups of a match that a scan takes yield is reported. -/
theorem scanWindow_reports
    {scanner : Scanner}
    {window : Window}
    {report : Report}
    (done : scanner.scanWindow window = .ok report)
    {found : Regex.Found}
    (member : found ∈ scanner.taken window) :
    scanner.groupFindings window found ⊆ report.findings := by
  unfold scanWindow at done
  simp only at done
  split at done
  · simp at done
  · rename_i final stopped counting
    simp only [Except.ok.injEq] at done
    rw [← done]
    intro finding ofGroup
    exact Tally.mem_result ((countFrom_keeps counting).2 found member ofGroup)

end Scanner

end NoticeScan
