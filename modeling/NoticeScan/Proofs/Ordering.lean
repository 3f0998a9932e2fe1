import NoticeScan.Proofs.Coalescing
import NoticeScan.Proofs.Construction
import NoticeScan.Proofs.WholeMatches
import NoticeScan.Proofs.Window

/-!
# The order of findings

Matches are found from left to right, and what the groups of a match have captured lies in it. So
findings of different matches come in order, and so do fragments. Order is lost in two ways: a
group of a match may have been passed in a later round of a repeat than a group with a higher
number, and fragments are reported behind all other findings, wherever they start.
-/

namespace NoticeScan

open NoticeScan.Regex NoticeScan.Scan NoticeScan.Text

/-- No finding starts in front of one that is reported before it. -/
def InOrder (findings : List Finding) : Prop :=
  findings.Pairwise fun earlier later => earlier.start ≤ later.start

instance (findings : List Finding) : Decidable (InOrder findings) :=
  inferInstanceAs (Decidable (findings.Pairwise _))

theorem inOrder_append
    {first second : List Finding} :
    InOrder (first ++ second) ↔ InOrder first ∧ InOrder second ∧
      ∀ earlier ∈ first, ∀ later ∈ second, earlier.start ≤ later.start :=
  List.pairwise_append

/-! ## Matches from left to right -/

namespace Regex

/-- What the groups of a match have captured lies in the match. -/
def Found.Encloses (found : Found) : Prop :=
  ∀ group start stop, 0 < group → found.group? group = some (start, stop) →
    found.start ≤ start ∧ start ≤ stop ∧ stop ≤ found.stop

/-- Matches of which none starts in front of the end of one before. -/
structure LeftToRight (founds : List Found) : Prop where
  forward : ∀ found ∈ founds, found.start ≤ found.stop
  apart : founds.Pairwise fun earlier later => earlier.stop ≤ later.start

variable {regex : Regex} {text : Array Char} {node : Node} {passes : List Pass} {found : Found}
  {founds more : List Found}

theorem Found.Tells.encloses
    (tells : found.Tells node text passes)
    (encloses : (node.ways text).Le .enclosing) :
    found.Encloses := by
  intro group start stop positive captured
  obtain ⟨passed, -⟩ := (Scanner.group?_eq_some_iff tells positive).mp captured
  exact (encloses _ _ _ tells.1).2 _ passed

theorem LeftToRight.of_front
    (whole : LeftToRight more)
    (front : founds <+: more) :
    LeftToRight founds where
  forward found member := whole.forward found (front.subset member)
  apart := whole.apart.sublist front.sublist

/-- The matches before the last one end where that one starts or in front of it. -/
theorem LeftToRight.of_concat
    (run : LeftToRight (founds ++ [found])) :
    LeftToRight founds ∧ found.start ≤ found.stop ∧
      ∀ other ∈ founds, other.start ≤ other.stop ∧ other.stop ≤ found.start := by
  obtain ⟨forward, last⟩ := List.forall_mem_append.mp run.forward
  obtain ⟨apart, -, across⟩ := List.pairwise_append.mp run.apart
  refine ⟨⟨forward, apart⟩, last found (List.mem_singleton_self found), fun other listed => ?_⟩
  exact ⟨forward other listed, across other listed found (List.mem_singleton_self found)⟩

/-- The matches of a search, and all behind the place where it begins. -/
theorem findFrom_leftToRight
    (bound : Nat)
    {search : Search}
    (within : search.pos ≤ text.size) :
    LeftToRight (regex.findFrom text bound search) ∧
      ∀ found ∈ regex.findFrom text bound search, search.pos ≤ found.start := by
  have none : LeftToRight [] := ⟨List.forall_mem_nil _, .nil⟩
  induction bound generalizing search with
  | zero => exact ⟨none, List.forall_mem_nil _⟩
  | succ bound inductionHypothesis =>
      rw [findFrom]
      cases next : regex.next? text search with
      | none => exact ⟨none, List.forall_mem_nil _⟩
      | some step =>
          obtain ⟨found, after⟩ := step
          obtain ⟨behind, inside, after_pos⟩ := next?_inside next within
          obtain ⟨rest, beyond⟩ := inductionHypothesis (after_pos ▸ inside.stop_le)
          rw [after_pos] at beyond
          refine ⟨⟨?_, ?_⟩, ?_⟩
          · exact List.forall_mem_cons.mpr ⟨inside.start_le, rest.forward⟩
          · exact .cons beyond rest.apart
          · refine List.forall_mem_cons.mpr ⟨behind, fun other member => ?_⟩
            exact (behind.trans inside.start_le).trans (beyond other member)

end Regex

/-! ## Where fragments start -/

namespace Scan.Fragments

/-- Where the fragments that are kept start. -/
def starts (fragments : Fragments) : List Nat :=
  fragments.toList.map Fragment.start

theorem starts_start
    (fragments : Fragments)
    (next : Fragment) :
    (fragments.start next).starts = fragments.starts ∨
      (fragments.start next).starts = fragments.starts ++ [next.start] := by
  by_cases kept : (fragments.count : Int) < fragments.limit
  · rw [starts, toList_start_kept kept, List.map_append]
    exact Or.inr rfl
  · rw [start_full kept]
    exact Or.inl rfl

/-- A fragment that is added starts behind those before, or it leaves all starts as they are. -/
theorem starts_add
    (fragments : Fragments)
    (next : Fragment) :
    (fragments.add next).starts = fragments.starts ∨
      (fragments.add next).starts = fragments.starts ++ [next.start] := by
  cases isLast : fragments.last with
  | none =>
      rw [add, isLast]
      exact starts_start fragments next
  | some prior =>
      by_cases close : next.isCloseTo prior = true
      · refine Or.inl ?_
        rw [add_of_close isLast close, starts, starts, toList, toList, isLast]
        simp [Fragment.join]
      · rw [add, isLast]
        dsimp only
        rw [if_neg close]
        exact starts_start fragments next

end Scan.Fragments

namespace Scanner

variable {rules : RuleSet} {scanner : Scanner} {window : Window} {found : Regex.Found}
  {founds : List Regex.Found} {tally : Tally} {finding : Finding}

/-! ## What one match adds -/

theorem tallyOf_concat :
    scanner.tallyOf window (founds ++ [found]) =
      scanner.credit window (scanner.tallyOf window founds) found := by
  rw [tallyOf, List.foldl_concat]
  rfl

/-- A finding of a match starts in the match. -/
theorem start_of_yields
    (encloses : found.Encloses)
    (forward : found.start ≤ found.stop)
    (yields : finding ∈ scanner.groupFindings window found ∨
      scanner.IsWhole window found finding) :
    found.start ≤ finding.start ∧ finding.start ≤ found.stop := by
  rcases yields with member | ⟨-, party, kind, -, rfl⟩
  · obtain ⟨group, slot, start, stop, positive, captured, -, rfl⟩ := exists_capture_of_mem member
    obtain ⟨low, ordered, high⟩ := encloses group start stop positive captured
    exact ⟨low, ordered.trans high⟩
  · exact ⟨Nat.le_refl _, forward⟩

theorem inOrder_of_adds
    {added : List Finding}
    (kind : added = scanner.groupFindings window found ∨
      ∃ finding, added = [finding] ∧ scanner.IsWhole window found finding) :
    InOrder added ↔ InOrder (scanner.groupFindings window found) := by
  rcases kind with rfl | ⟨finding, rfl, noGroups, -⟩
  · rfl
  · rw [noGroups]
    exact iff_of_true (List.pairwise_singleton _ _) .nil

theorem credit_fragments :
    (scanner.credit window tally found).fragments = tally.fragments ∨
      (scanner.credit window tally found).fragments =
        tally.fragments.add (wholeFragment window found) := by
  rw [credit]
  by_cases whole : scanner.LooksAtWhole window found tally
  · rw [if_pos whole, countWhole_eq]
    split
    · exact Or.inl rfl
    · rw [addWholeMatch]
      split
      · exact Or.inl rfl
      · exact Or.inr rfl
  · rw [if_neg whole, Tally.fragments_addCaptures]
    exact Or.inl rfl

/-! ## What a run of matches adds -/

/-- Findings that are no fragments come in order just when those of each match do. -/
theorem tallyOf_inOrder_iff
    (run : LeftToRight founds)
    (encloses : ∀ found ∈ founds, found.Encloses) :
    InOrder (scanner.tallyOf window founds).findings.reverse ↔
      ∀ found ∈ founds, InOrder (scanner.groupFindings window found) := by
  induction founds using List.reverseRecOn with
  | nil => exact iff_of_true .nil (List.forall_mem_nil _)
  | append_singleton before found inductionHypothesis =>
      obtain ⟨runBefore, forward, across⟩ := run.of_concat
      obtain ⟨enclosesBefore, enclosesFound⟩ := List.forall_mem_append.mp encloses
      obtain ⟨added, is, kind⟩ :=
        @credit_adds scanner window found (scanner.tallyOf window before)
      have ordered : ∀ one ∈ (scanner.tallyOf window before).findings.reverse,
          ∀ other ∈ added, one.start ≤ other.start := by
        intro one inBefore other inAdded
        obtain ⟨prior, listed, yields⟩ := tallyOf_findings (List.mem_reverse.mp inBefore)
        have yieldsToo : other ∈ scanner.groupFindings window found ∨
            scanner.IsWhole window found other := by
          rcases kind with rfl | ⟨single, rfl, isWhole⟩
          · exact Or.inl inAdded
          · exact Or.inr (List.mem_singleton.mp inAdded ▸ isWhole)
        obtain ⟨forwardPrior, apart⟩ := across prior listed
        have first := start_of_yields (enclosesBefore prior listed) forwardPrior yields
        have second :=
          start_of_yields (List.forall_mem_singleton.mp enclosesFound) forward yieldsToo
        exact (first.2.trans apart).trans second.1
      rw [tallyOf_concat, is, List.reverse_append, List.reverse_reverse, inOrder_append,
        List.forall_mem_append, List.forall_mem_singleton]
      exact and_congr (inductionHypothesis runBefore enclosesBefore)
        ((and_iff_left ordered).trans (inOrder_of_adds kind))

/-- Fragments come in order, each from where some match starts. -/
theorem tallyOf_starts
    (run : LeftToRight founds) :
    (scanner.tallyOf window founds).fragments.starts.Pairwise (· ≤ ·) ∧
      ∀ start ∈ (scanner.tallyOf window founds).fragments.starts,
        ∃ found ∈ founds, found.start = start := by
  induction founds using List.reverseRecOn with
  | nil => exact ⟨.nil, List.forall_mem_nil _⟩
  | append_singleton before found inductionHypothesis =>
      obtain ⟨runBefore, -, across⟩ := run.of_concat
      obtain ⟨ordered, places⟩ := inductionHypothesis runBefore
      have placesToo : ∀ start ∈ (scanner.tallyOf window before).fragments.starts,
          ∃ other ∈ before ++ [found], other.start = start := by
        intro start member
        obtain ⟨other, listed, is⟩ := places start member
        exact ⟨other, List.mem_append_left _ listed, is⟩
      have grown : (scanner.tallyOf window (before ++ [found])).fragments.starts =
            (scanner.tallyOf window before).fragments.starts ∨
          (scanner.tallyOf window (before ++ [found])).fragments.starts =
            (scanner.tallyOf window before).fragments.starts ++ [found.start] := by
        rw [tallyOf_concat]
        rcases @credit_fragments scanner window found (scanner.tallyOf window before)
          with same | more
        · rw [same]
          exact Or.inl rfl
        · rw [more]
          exact Fragments.starts_add _ _
      rcases grown with same | more
      · rw [same]
        exact ⟨ordered, placesToo⟩
      · rw [more]
        refine ⟨List.pairwise_append.mpr ⟨ordered, List.pairwise_singleton _ _, ?_⟩,
          List.forall_mem_append.mpr ⟨placesToo, ?_⟩⟩
        · intro start member last isLast
          obtain ⟨other, listed, rfl⟩ := places start member
          rw [List.mem_singleton.mp isLast]
          exact (across other listed).1.trans (across other listed).2
        · exact List.forall_mem_singleton.mpr
            ⟨found, List.mem_append_right _ (List.mem_singleton_self _), rfl⟩

theorem tallyOf_fragments_inOrder
    (run : LeftToRight founds) :
    InOrder (scanner.tallyOf window founds).fragments.findings := by
  have ordered := (@tallyOf_starts scanner window founds run).1
  rw [Fragments.starts, List.pairwise_map] at ordered
  rw [InOrder, Fragments.findings, List.pairwise_map]
  exact ordered

/-! ## What a scan reports -/

/-- What matches add up to is in order just when the findings of the groups of each match are, and
no fragment that is reported starts in front of another finding. -/
theorem result_inOrder_iff
    (run : LeftToRight founds)
    (encloses : ∀ found ∈ founds, found.Encloses) :
    InOrder (scanner.tallyOf window founds).result ↔
      (∀ found ∈ founds, InOrder (scanner.groupFindings window found)) ∧
        ((scanner.tallyOf window founds).licenses = 0 →
          ∀ finding ∈ (scanner.tallyOf window founds).findings,
            ∀ fragment ∈ (scanner.tallyOf window founds).fragments.findings,
              finding.start ≤ fragment.start) := by
  rw [← tallyOf_inOrder_iff run encloses, Tally.result]
  by_cases none : (scanner.tallyOf window founds).licenses = 0
  · rw [if_pos none, inOrder_append, and_iff_right (tallyOf_fragments_inOrder run),
      forall_prop_of_true none]
    simp only [List.mem_reverse]
  · rw [if_neg none, List.append_nil]
    exact (and_iff_left fun noLicense => absurd noLicense none).symm

theorem tallyOf_licenses_eq_zero :
    (scanner.tallyOf window founds).licenses = 0 ↔
      ∀ found ∈ founds, ∀ finding ∈ scanner.groupFindings window found,
        finding.kind ≠ .license := by
  rw [tallyOf_licenses, List.countP_eq_zero]
  simp only [List.mem_flatMap, decide_eq_true_eq, forall_exists_index, and_imp]
  exact ⟨fun none found listed finding member => none finding found listed member,
    fun none finding found listed member => none found listed finding member⟩

/-- A scan of bytes comes to a report. Its findings are in order just when two things are: in each
match, the findings of the groups, which come by the numbers of the groups; and if no group has
found a licence, the fragments behind all other findings. Nothing else can be out of order: what
different matches have added comes as the matches do, and so do the fragments. -/
theorem findings_inOrder_iff
    {size threshold : Int}
    (made : build rules {} size threshold = .ok scanner)
    (contained : rules.SelfContained)
    (atLeastOne : 1 ≤ size)
    (name : String)
    (bytes : List UInt8) :
    ∃ (text : List Char) (report : Report),
      ((Reader.ofBytes name bytes).read (-1)).1 = .ok text.toArray ∧
      (scanner.scanBytes name bytes).1 = .ok report ∧
      let window := Window.ofText (text.take size.toNat)
      let founds := scanner.taken window
      let tally := scanner.tallyOf window founds
      report.findings = tally.result ∧
      (InOrder report.findings ↔
        (∀ found ∈ founds, InOrder (scanner.groupFindings window found)) ∧
          ((∀ found ∈ founds, ∀ finding ∈ scanner.groupFindings window found,
              finding.kind ≠ .license) →
            ∀ finding ∈ tally.findings, ∀ fragment ∈ tally.fragments.findings,
              finding.start ≤ fragment.start)) := by
  obtain ⟨slotted, ⟨high, fits⟩, encloses⟩ := composite_of_build made contained
  obtain rfl : scanner.window = size := (expression_of_build made).1
  obtain ⟨text, all, scanned⟩ := scanBytes_eq atLeastOne name bytes
  obtain ⟨report, done⟩ := slotted.scanWindow (.ofText (text.take scanner.window.toNat))
  refine ⟨text, report, all, scanned.trans done, ?_⟩
  intro window founds tally
  have adds : report.findings = tally.result := scanWindow_tally done
  have front : founds <+: scanner.composite.findAll window.text := scanner.taken_findAll window
  have run : LeftToRight founds :=
    (findFrom_leftToRight _ (Nat.zero_le _)).1.of_front front
  have enclosed : ∀ found ∈ founds, found.Encloses := by
    intro found listed
    obtain ⟨passes, tells⟩ := findAll_tells fits (front.subset listed)
    exact tells.encloses (encloses window.text)
  refine ⟨adds, ?_⟩
  rw [adds, result_inOrder_iff run enclosed, tallyOf_licenses_eq_zero]

/-- A text with contract words in front of a copyright notice. -/
theorem findings_inOrder_iff_breach :
    let shown := "breach\n\nCopyright 2001 Alpha".toList
    ∃ scanner report, ofRules estateRules = .ok scanner ∧ estateRules.SelfContained ∧
      1 ≤ defaultWindow ∧
      (scanner.scanBytes "notice" (Utf8.encode shown)).1 = .ok report ∧
      let window := Window.ofText shown
      let founds := scanner.taken window
      let tally := scanner.tallyOf window founds
      report.findings = tally.result ∧
      (InOrder report.findings ↔
        (∀ found ∈ founds, InOrder (scanner.groupFindings window found)) ∧
          ((∀ found ∈ founds, ∀ finding ∈ scanner.groupFindings window found,
              finding.kind ≠ .license) →
            ∀ finding ∈ tally.findings, ∀ fragment ∈ tally.fragments.findings,
              finding.start ≤ fragment.start)) := by
  intro shown
  have contained : estateRules.SelfContained := by decide +kernel
  have atLeastOne : 1 ≤ defaultWindow := by decide
  have read : ((Reader.ofBytes "notice" (Utf8.encode shown)).read (-1)).1 = .ok shown.toArray := by
    decide +kernel
  rcases settled_ofRules (show estateRules.issues = .ok [] by decide +kernel) with
    ⟨issue, member, -⟩ | ⟨-, -, made⟩
  · exact absurd member List.not_mem_nil
  · obtain ⟨scanner, built, -⟩ := made contained
    obtain ⟨text, report, delivered, done, order⟩ :=
      findings_inOrder_iff built contained atLeastOne "notice" (Utf8.encode shown)
    have whole : text = shown :=
      congrArg Array.toList (Except.ok.inj (delivered.symm.trans read))
    subst whole
    exact ⟨scanner, report, built, contained, atLeastOne, done, order⟩

-- Both ways to lose order: in a repeat, the second group has captured `b` before the first one
-- captures `c`, and a fragment at the start of the text comes behind what an owner's group yields.
example :
    let starts (expression text : String) : List Nat :=
      ((lookingFor {} expression).toOption.bind fun scanner =>
        (scanner.scanWindow (.ofText text.toList)).toOption).elim [] fun report =>
          report.findings.map Finding.start
    starts "(?:(?P<copyright_owner_1>[ac])|(?P<copyright_owner_2>b))+" "abc" = [2, 1] ∧
      starts "breach|by (?P<author_1>[a-z]*)" "breach by alpha" = [10, 0] := by
  decide +kernel

end Scanner

end NoticeScan
