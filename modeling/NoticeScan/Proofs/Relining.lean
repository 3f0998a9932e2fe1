import Mathlib
import NoticeScan.Proofs.Positions
import NoticeScan.Proofs.Window

/-!
# Scanning a later window

A scan counts offsets from the start of its window, while a reader finds lines by offsets from the
start of its text. So a reader that has delivered text before gets findings with the offsets of a
scan of the window alone, and with the lines of other characters. Line numbers matter to a scan
only where fragments are joined; elsewhere the findings differ in their lines and in nothing else.
-/

namespace NoticeScan

open NoticeScan.Scan

/-! ## Telling lines anew -/

/-- A finding with the lines of its ends told anew. -/
def Finding.relined (lineOf : Nat → Nat) (finding : Finding) : Finding :=
  { finding with startLine := lineOf finding.start, endLine := lineOf finding.stop }

namespace Scan

/-- A fragment with the lines of its ends told anew. -/
def Fragment.relined (lineOf : Nat → Nat) (fragment : Fragment) : Fragment :=
  { fragment with startLine := lineOf fragment.start, endLine := lineOf fragment.stop }

/-- Collected fragments with their lines told anew. -/
def Fragments.relined (lineOf : Nat → Nat) (fragments : Fragments) : Fragments :=
  { fragments with
    last := fragments.last.map (Fragment.relined lineOf)
    earlier := fragments.earlier.map (Fragment.relined lineOf) }

end Scan

/-- A tally with all lines told anew. -/
def Tally.relined (lineOf : Nat → Nat) (tally : Tally) : Tally :=
  { tally with
    findings := tally.findings.map (Finding.relined lineOf)
    fragments := tally.fragments.relined lineOf }

/-- A report with all lines told anew. -/
def Scanner.Report.relined (lineOf : Nat → Nat) (report : Scanner.Report) : Scanner.Report :=
  { report with findings := report.findings.map (Finding.relined lineOf) }

/-- The same text with other lines. -/
def Window.relined (lineOf : Nat → Nat) (window : Window) : Window :=
  { window with lineOf := lineOf }

/-- Two ways to tell lines agree on whether fragments of a text that are many characters apart are
also many lines apart. -/
def SameGaps (size : Nat) (lineOf other : Nat → Nat) : Prop :=
  ∀ stop start, stop + joinChars ≤ start → start ≤ size →
    (lineOf start < lineOf stop + joinLines ↔ other start < other stop + joinLines)

namespace Scan.Fragments

variable {fragments : Fragments} {next : Fragment} {window : Window} {lineOf : Nat → Nat} {pos : Nat}

theorem start_relined
    (lineOf : Nat → Nat)
    (fragments : Fragments)
    (next : Fragment) :
    (fragments.relined lineOf).start (next.relined lineOf) =
      (fragments.start next).relined lineOf := by
  have sameCount : ((fragments.relined lineOf).count : Int) < (fragments.relined lineOf).limit ↔
      (fragments.count : Int) < fragments.limit := Iff.rfl
  rw [start, start]
  by_cases kept : (fragments.count : Int) < fragments.limit
  · rw [if_pos kept, if_pos (sameCount.mpr kept)]
    rcases fragments with ⟨limit, _ | prior, earlier, count⟩ <;> rfl
  · rw [if_neg kept, if_neg (mt sameCount.mp kept)]
    rfl

/-- Fragments are joined alike when their gaps are told alike. -/
theorem add_relined
    (gaps : SameGaps window.text.size window.lineOf lineOf)
    (placed : fragments.Placed window pos)
    (lies : next.finding.Placed window) :
    (fragments.relined lineOf).add (next.relined lineOf) =
      (fragments.add next).relined lineOf := by
  cases isLast : fragments.last with
  | none =>
      have lastToo : (fragments.relined lineOf).last = none := by
        rw [relined, isLast]
        rfl
      rw [add, add, isLast, lastToo]
      exact start_relined lineOf fragments next
  | some prior =>
      have lastToo : (fragments.relined lineOf).last = some (prior.relined lineOf) := by
        rw [relined, isLast]
        rfl
      have close : (next.relined lineOf).isCloseTo (prior.relined lineOf) =
          next.isCloseTo prior := by
        have priorLine : prior.endLine = window.lineOf prior.stop :=
          (placed.last prior isLast).endLine
        have nextLine : next.startLine = window.lineOf next.start := lies.startLine
        have inside : next.start ≤ window.text.size := lies.start_le.trans lies.stop_le
        rw [Fragment.isCloseTo, Fragment.isCloseTo, priorLine, nextLine]
        rcases Nat.lt_or_ge next.start (prior.stop + joinChars) with near | far
        · rw [decide_eq_true near, Bool.or_true]
          exact (congrArg _ (decide_eq_true near)).trans (Bool.or_true _)
        · have gap := gaps prior.stop next.start far inside
          rw [decide_eq_decide.mpr gap]
          rfl
      rw [add, add, isLast, lastToo]
      dsimp only
      rw [close]
      split
      · rfl
      · exact start_relined lineOf fragments next

theorem findings_relined
    (lineOf : Nat → Nat)
    (fragments : Fragments) :
    (fragments.relined lineOf).findings = fragments.findings.map (Finding.relined lineOf) := by
  have each : Fragment.finding ∘ Fragment.relined lineOf =
      Finding.relined lineOf ∘ Fragment.finding := rfl
  rcases fragments with ⟨limit, _ | prior, earlier, count⟩
  all_goals
    simp only [findings, toList, relined, Option.map_some, Option.map_none, Option.toList_some,
      Option.toList_none, List.nil_append, List.singleton_append, ← List.map_cons,
      ← List.map_reverse, List.map_map, each]

end Scan.Fragments

namespace Tally

theorem result_relined
    (lineOf : Nat → Nat)
    (tally : Tally) :
    (tally.relined lineOf).result = tally.result.map (Finding.relined lineOf) := by
  rw [result, result, List.map_append, List.map_reverse]
  have licenses : (tally.relined lineOf).licenses = tally.licenses := rfl
  rw [licenses]
  by_cases none : tally.licenses = 0
  · rw [if_pos none, if_pos none, ← Fragments.findings_relined]
    rfl
  · rw [if_neg none, if_neg none]
    rfl

end Tally

namespace Scanner

variable {scanner : Scanner} {window : Window} {found : Regex.Found} {tally : Tally} {pos : Nat}
  {lineOf : Nat → Nat}

/-! ## A scan with other lines -/

theorem countGroup_relined
    (lineOf : Nat → Nat)
    (whole : List Char)
    (group : Nat) :
    scanner.countGroup (window.relined lineOf) whole found (tally.relined lineOf) group =
      (scanner.countGroup window whole found tally group).map (Tally.relined lineOf) := by
  rw [countGroup, countGroup]
  cases found.group? group with
  | none => rfl
  | some span =>
      dsimp only [Window.relined]
      split
      · rfl
      · cases scanner.slot? group <;> rfl

theorem countGroups_relined
    (lineOf : Nat → Nat)
    (whole : List Char) :
    scanner.countGroups (window.relined lineOf) whole found (tally.relined lineOf) =
      (scanner.countGroups window whole found tally).map (Tally.relined lineOf) := by
  rw [countGroups, countGroups]
  generalize List.range' 1 scanner.composite.groupCount = groups
  induction groups generalizing tally with
  | nil => rfl
  | cons group rest inductionHypothesis =>
      rw [List.foldlM_cons, List.foldlM_cons, countGroup_relined]
      cases scanner.countGroup window whole found tally group with
      | error error => rfl
      | ok next => exact inductionHypothesis

theorem countWhole_relined
    (gaps : SameGaps window.text.size window.lineOf lineOf)
    (inside : found.Inside window.text)
    (placed : tally.fragments.Placed window pos)
    (whole : List Char) :
    scanner.countWhole (window.relined lineOf) whole found (tally.relined lineOf) =
      ((scanner.countWhole window whole found tally).1.relined lineOf,
        (scanner.countWhole window whole found tally).2) := by
  rw [countWhole, countWhole]
  split
  · rfl
  · split
    · rfl
    · have lies : (Fragment.mk whole (window.lineOf found.start) (window.lineOf found.stop)
          found.start found.stop).finding.Placed window :=
        ⟨inside.start_le, inside.stop_le, rfl, rfl⟩
      have added := Fragments.add_relined gaps placed lies
      dsimp only [Tally.addFragment, Tally.relined]
      rw [← added]
      rfl

/-- One match is counted alike when gaps are told alike. -/
theorem countMatch_relined
    (gaps : SameGaps window.text.size window.lineOf lineOf)
    (inside : found.Inside window.text)
    (placed : tally.Placed window pos) :
    scanner.countMatch (window.relined lineOf) found (tally.relined lineOf) =
      (scanner.countMatch window found tally).map fun result =>
        (result.1.relined lineOf, result.2) := by
  have sameText : (window.relined lineOf).text = window.text := rfl
  rw [countMatch, countMatch, sameText, countGroups_relined]
  cases counting : scanner.countGroups window
      (normalText (slice window.text found.start found.stop)) found tally with
  | error error => rfl
  | ok counted =>
      have kept : counted.fragments.Placed window pos := by
        rw [countGroups_eq counting, Tally.fragments_addCaptures]
        exact placed.fragments
      have findings : ∀ some : Tally,
          (some.relined lineOf).findings.length = some.findings.length :=
        fun some => List.length_map _
      have licenses : (counted.relined lineOf).licenses = counted.licenses := rfl
      have fragments : (counted.relined lineOf).fragments.count = counted.fragments.count := rfl
      dsimp only [Except.map]
      rw [findings, findings, licenses, fragments, countWhole_relined gaps inside kept]
      split <;> rfl

/-- A run takes the same matches, and what it has counted differs only in lines. -/
theorem countFrom_relined
    (gaps : SameGaps window.text.size window.lineOf lineOf)
    {bound : Nat}
    {search : Regex.Search}
    (within : search.pos ≤ window.text.size)
    (placed : tally.Placed window search.pos) :
    scanner.countFrom (window.relined lineOf) bound search (tally.relined lineOf) =
      (scanner.countFrom window bound search tally).map fun result =>
        (result.1.relined lineOf, result.2) := by
  induction bound generalizing search tally with
  | zero => rfl
  | succ bound inductionHypothesis =>
      have sameText : (window.relined lineOf).text = window.text := rfl
      rw [countFrom, countFrom, sameText]
      cases next : scanner.composite.next? window.text search with
      | none => rfl
      | some step =>
          obtain ⟨found, after⟩ := step
          obtain ⟨behind, inside, after_pos⟩ := Regex.next?_inside next within
          dsimp only
          rw [countMatch_relined gaps inside placed]
          cases counting : scanner.countMatch window found tally with
          | error error => rfl
          | ok result =>
              obtain ⟨counted, counts⟩ := result
              have lies := countMatch_placed inside behind placed counting
              rw [← after_pos] at lies
              have later := inductionHypothesis (after_pos ▸ inside.stop_le) lies
              dsimp only [Except.map]
              have known : (counted.relined lineOf).known = counted.known := rfl
              rw [known, later]
              split <;> rfl

/-- Other lines change nothing in what a scan reports but the lines, if they keep the same
fragments apart. -/
theorem scanWindow_relined
    (gaps : SameGaps window.text.size window.lineOf lineOf) :
    scanner.scanWindow (window.relined lineOf) =
      (scanner.scanWindow window).map (Report.relined lineOf) := by
  have run := @countFrom_relined scanner window _ _ gaps (Regex.matchBound window.text) {}
    (Nat.zero_le _) (Tally.placed_empty scanner.threshold window)
  have empty : (({ fragments := { limit := scanner.threshold } } : Tally).relined lineOf) =
      { fragments := { limit := scanner.threshold } } := rfl
  have sameText : (window.relined lineOf).text = window.text := rfl
  rw [empty] at run
  rw [scanWindow, scanWindow, sameText, run]
  rcases scanner.countFrom window (Regex.matchBound window.text) {}
    { fragments := { limit := scanner.threshold } } with error | ⟨final, stopped⟩
  · rfl
  · dsimp only [Except.map]
    rw [Tally.result_relined]
    rfl

end Scanner

/-! ## Lines of offsets -/

namespace Scanner

open NoticeScan.Reader

/-- A scan of the next window of a reader that has delivered some text before. The offsets of its
findings are those in the window, and their lines are those which the reader gives for these
offsets; these are the lines of the findings themselves just when there is no line feed among the
characters that both offsets are apart, which are as many as have been delivered before. Where the
lines keep the same fragments apart, the scan finds what a scan of the window alone finds, at the
same offsets, and differs only in lines. If nothing has been delivered before, it is that scan. -/
theorem scanNext_offsets
    (scanner : Scanner)
    (name : String)
    (source : Source)
    (sizeHint : Int)
    (uses : List Use)
    (size : Int)
    {window : Array Char}
    {next : Reader}
    (read : (runUses uses { name := name, source := source, sizeHint := sizeHint }).2.read
      (scanner.windowSize size) = (.ok window, next)) :
    let reader : Reader := { name := name, source := source, sizeHint := sizeHint }
    let before := (runUses uses reader).1
    let text := before ++ window.toList
    let result := scanner.scanNext (runUses uses reader).2 size
    let alone := scanner.scanWindow (.ofText window.toList)
    result.2 = next ∧
      (∀ report, result.1 = .ok report → ∀ finding ∈ report.findings,
        finding.start ≤ finding.stop ∧ finding.stop ≤ window.size ∧
        finding.startLine = next.lineNumber finding.start ∧
        finding.endLine = next.lineNumber finding.stop ∧
        (finding.startLine = next.lineNumber (before.length + finding.start : Nat) ↔
          '\n' ∉ (text.drop finding.start).take before.length) ∧
        (finding.endLine = next.lineNumber (before.length + finding.stop : Nat) ↔
          '\n' ∉ (text.drop finding.stop).take before.length)) ∧
      (SameGaps window.size (lineIn window.toList) (lineIn text) →
        result.1 = alone.map (Report.relined (lineIn text))) ∧
      (before = [] → result.1 = alone) := by
  intro reader before text result alone
  have indexed : Indexed next text :=
    ((indexed_start name source sizeHint).runUses uses).read read
  have lines : (fun offset : Nat => next.lineNumber offset) = lineIn text :=
    funext indexed.lineNumber
  have scanned : result = (scanner.scanWindow ⟨window, lineIn text⟩, next) := by
    rw [← lines]
    change scanner.scanNext _ size = _
    rw [scanNext, read]
  refine ⟨congrArg Prod.snd scanned, ?_, ?_, ?_⟩
  · intro report done finding member
    rw [scanned] at done
    have placed := scanWindow_placed done finding member
    simp only [indexed.lineNumber]
    have startLine : finding.startLine = lineIn text finding.start := placed.startLine
    have endLine : finding.endLine = lineIn text finding.stop := placed.endLine
    refine ⟨placed.start_le, placed.stop_le, startLine, endLine, ?_, ?_⟩
    · rw [startLine, lineIn_eq_iff]
    · rw [endLine, lineIn_eq_iff]
  · intro gaps
    have relined := @scanWindow_relined scanner (.ofText window.toList) _ gaps
    rw [scanned]
    exact relined
  · intro nothing
    have whole : text = window.toList := by
      rw [show text = before ++ window.toList from rfl, nothing, List.nil_append]
    rw [scanned, whole]
    rfl

/-- Behind a line with two letters, the next window is one letter. It is found at the offset zero,
in the first line, although it stands in the second one. -/
theorem scanNext_offsets_secondLine :
    ∃ (scanner : Scanner) (next : Reader) (report : Report) (finding : Finding),
      let source : Source := { fetches := [.bytes [0x61, 0x61, 0x0A, 0x62]] }
      let reader : Reader := { name := "lines", source := source, sizeHint := 4 }
      let uses : List Use := [.request (.read 3)]
      (runUses uses reader).1 = ['a', 'a', '\n'] ∧
        (runUses uses reader).2.read (scanner.windowSize (-1)) = (.ok #['b'], next) ∧
        SameGaps 1 (lineIn ['b']) (lineIn ['a', 'a', '\n', 'b']) ∧
        (scanner.scanNext (runUses uses reader).2 (-1)).1 = .ok report ∧
        finding ∈ report.findings ∧
        finding.start = 0 ∧ finding.startLine = 1 ∧ next.lineNumber 3 = 2 := by
  let source : Source := { fetches := [.bytes [0x61, 0x61, 0x0A, 0x62]] }
  let reader : Reader := { name := "lines", source := source, sizeHint := 4 }
  let uses : List Use := [.request (.read 3)]
  have tried : ((lookingFor { thirdLicenses := ["b"] } "(?P<known_license_1>b)").toOption.any
      fun scanner => scanner.windowSize (-1) = 262144 &&
        (scanner.scanWindow (.ofText ['b'])).toOption.any fun report =>
          report.findings.any fun finding => finding.start = 0) = true := by
    decide +kernel
  obtain ⟨scanner, -, looked⟩ := (Option.any_eq_true _ _).mp tried
  obtain ⟨asked, scanned⟩ := Bool.and_eq_true_iff.mp looked
  obtain ⟨alone, reported, found⟩ := (Option.any_eq_true _ _).mp scanned
  obtain ⟨finding, member, start⟩ := List.any_eq_true.mp found
  obtain ⟨next, isNext⟩ : ∃ next, ((runUses uses reader).2.read 262144).2 = next := ⟨_, rfl⟩
  have window : ((runUses uses reader).2.read 262144).1 = .ok #['b'] := by decide +kernel
  have read : (runUses uses reader).2.read (scanner.windowSize (-1)) = (.ok #['b'], next) := by
    rw [of_decide_eq_true asked]
    exact Prod.ext window isNext
  have gaps : SameGaps 1 (lineIn ['b']) (lineIn ['a', 'a', '\n', 'b']) := by
    intro stop start far inside
    have chars : joinChars = 300 := rfl
    omega
  have delivered : (runUses uses reader).1 = ['a', 'a', '\n'] := by decide +kernel
  have offsets := scanNext_offsets scanner "lines" source 4 uses (-1) read
  dsimp only at offsets
  rw [delivered] at offsets
  obtain ⟨-, lines, relined, -⟩ := offsets
  have result := relined gaps
  rw [Regex.eq_ok_of_toOption reported] at result
  have among : finding.relined (lineIn ['a', 'a', '\n', 'b']) ∈
      (alone.relined (lineIn ['a', 'a', '\n', 'b'])).findings :=
    List.mem_map_of_mem member
  obtain ⟨-, -, startLine, -⟩ := lines _ result _ among
  have startsAt : (finding.relined (lineIn ['a', 'a', '\n', 'b'])).start = 0 :=
    of_decide_eq_true start
  have numbers : next.lineNumber 0 = 1 ∧ next.lineNumber 3 = 2 := by
    rw [← isNext]
    decide +kernel
  rw [startsAt] at startLine
  exact ⟨scanner, next, _, _, delivered, read, gaps, result, among, startsAt,
    startLine.trans numbers.1, numbers.2⟩

end Scanner

end NoticeScan
