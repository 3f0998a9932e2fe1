import NoticeScan.Proofs.Built
import NoticeScan.Proofs.ScanRun
import NoticeScan.Proofs.Sound

/-!
# Whose the captures of a scan are

What the groups of a match have captured is reported, and its party is asked for by the normal
text of the capture alone. Which pattern has found the text plays no part in that, and of the
rounds of a repeat only the last one that passes a group is asked about.
-/

namespace NoticeScan

open NoticeScan.Regex NoticeScan.Scan

namespace Scanner

variable {rules : RuleSet} {limits : Pattern.Limits} {scanner : Scanner} {window : Window}
  {report : Report} {found : Regex.Found} {group start stop : Nat} {slot : Slot}

/-! ## Captures that are reported -/

/-- A capture that counts is reported as what its slot and its normal text make it. -/
theorem capture_reported
    (built : Built rules limits scanner)
    (done : scanner.scanWindow window = .ok report)
    (member : found ∈ scanner.taken window)
    (named : scanner.slot? group = some slot)
    (captured : found.group? group = some (start, stop))
    (counts : scanner.Counts window start stop) :
    scanner.captureFinding window found slot start stop ∈ report.findings :=
  scanWindow_reports done member
    (mem_groupFindings (built.slot_numbered named) captured named counts)

/-- The party that a known licence is given, with none that describes it being unknown. -/
theorem classify_knownLicense
    (scanner : Scanner)
    (text : List Char) :
    scanner.classify text .knownLicense =
      ((scanner.knownLicense? text).getD .unknown, .license) := by
  unfold classify
  cases scanner.knownLicense? text with
  | some party => rfl
  | none => rfl

theorem describing?_ne_unknown
    (patterns : Role → List Pattern.Compiled)
    (text : List Char) :
    describing? patterns text ≠ some .unknown := by
  rw [describing?_eq]
  grind

theorem captureFinding_knownLicense
    (scanner : Scanner)
    (window : Window)
    (found : Regex.Found)
    (start stop : Nat) :
    scanner.captureFinding window found .knownLicense start stop =
      findingAt window
        ((scanner.knownLicense? (normalText (slice window.text start stop))).getD .unknown)
        .license (wholeText window found) start stop := by
  unfold captureFinding
  rw [classify_knownLicense]

/-! ## Trying a scanner out -/

/-- Whether some match that a scan takes is as it is looked for. -/
def tryOut (rules : RuleSet) (expression text : String)
    (looked : Scanner → Window → Regex.Found → Bool) : Bool :=
  let window : Window := { text := text.toList.toArray, lineOf := fun _ => 1 }
  match lookingFor rules expression with
  | .ok scanner =>
      (scanner.scanWindow window).toOption.isSome &&
        (scanner.taken window).any (looked scanner window)
  | .error _ => false

theorem of_tryOut
    {expression text : String}
    {looked : Scanner → Window → Regex.Found → Bool}
    (tried : tryOut rules expression text looked = true) :
    ∃ scanner report, Built rules {} scanner ∧
      scanner.scanWindow ⟨text.toList.toArray, fun _ => 1⟩ = .ok report ∧
      ∃ found ∈ scanner.taken ⟨text.toList.toArray, fun _ => 1⟩,
        looked scanner ⟨text.toList.toArray, fun _ => 1⟩ found = true := by
  unfold tryOut at tried
  simp only at tried
  split at tried
  · rename_i scanner made
    obtain ⟨scanned, found⟩ := Bool.and_eq_true_iff.mp tried
    cases done : scanner.scanWindow ⟨text.toList.toArray, fun _ => 1⟩ with
    | error error =>
        rw [done] at scanned
        cases scanned
    | ok report =>
        exact ⟨scanner, report, built_of_lookingFor made, done, List.any_eq_true.mp found⟩
  · cases tried

/-! ## Known licences -/

/-- What a licence pattern has found is reported as a licence, and its party is unknown exactly
when no pattern describes its normal text as a whole. -/
theorem knownLicense_unknown_iff
    (built : Built rules limits scanner)
    (done : scanner.scanWindow window = .ok report)
    (member : found ∈ scanner.taken window)
    (named : scanner.slot? group = some .knownLicense)
    (captured : found.group? group = some (start, stop))
    (counts : scanner.Counts window start stop) :
    ∃ finding ∈ report.findings,
      finding.kind = .license ∧ finding.start = start ∧ finding.stop = stop ∧
        (finding.party = .unknown ↔
          ∀ role, ¬ Describes limits (rules.get (.licenses role))
            (normalText (slice window.text start stop))) := by
  refine ⟨_, capture_reported built done member named captured counts, ?_⟩
  rw [captureFinding_knownLicense]
  refine ⟨rfl, rfl, rfl, ?_⟩
  rw [← built.knownLicense?_eq_none]
  simp only [findingAt]
  cases known : scanner.knownLicense? (normalText (slice window.text start stop)) with
  | none => simp
  | some party =>
      simp only [Option.getD_some, reduceCtorEq, iff_false]
      rintro rfl
      exact describing?_ne_unknown _ _ known

/-- A slash is found, but it is gone when the text is made normal. -/
theorem knownLicense_unknown_slash :
    ∃ scanner window report, Built { thirdLicenses := ["a/b"] } {} scanner ∧
      scanner.scanWindow window = .ok report ∧
      ∃ finding ∈ report.findings, finding.kind = .license ∧ finding.party = .unknown := by
  obtain ⟨scanner, report, built, done, looked⟩ := of_tryOut
    (show tryOut { thirdLicenses := ["a/b"] } "(?P<known_license_1>a/b)" "a/b"
        (fun scanner window found =>
          found.group? 1 = some (0, 3) ∧ scanner.slot? 1 = some .knownLicense ∧
            scanner.Counts window 0 3 ∧
            scanner.knownLicense? (normalText (slice window.text 0 3)) = none) = true by
      decide +kernel)
  obtain ⟨found, member, asked⟩ := looked
  obtain ⟨captured, named, counts, unknown⟩ := of_decide_eq_true asked
  obtain ⟨finding, reported, license, -, -, exactly⟩ :=
    knownLicense_unknown_iff built done member named captured counts
  exact ⟨scanner, _, report, built, done, finding, reported, license,
    exactly.mpr ((built.knownLicense?_eq_none _).mp unknown)⟩

/-- What a licence pattern has found is forbidden exactly when a forbidden pattern describes the
normal text of the capture. Whether one describes a longer text that starts there is not asked. -/
theorem knownLicense_forbidden_iff
    (built : Built rules limits scanner)
    (done : scanner.scanWindow window = .ok report)
    (member : found ∈ scanner.taken window)
    (named : scanner.slot? group = some .knownLicense)
    (captured : found.group? group = some (start, stop))
    (counts : scanner.Counts window start stop) :
    ∃ finding ∈ report.findings,
      finding.kind = .license ∧ finding.start = start ∧ finding.stop = stop ∧
        (finding.party = .forbidden ↔
          Describes limits rules.forbiddenLicenses
            (normalText (slice window.text start stop))) := by
  refine ⟨_, capture_reported built done member named captured counts, ?_⟩
  rw [captureFinding_knownLicense]
  refine ⟨rfl, rfl, rfl, ?_⟩
  rw [← built.knownLicense?_eq_forbidden]
  simp only [findingAt]
  cases scanner.knownLicense? (normalText (slice window.text start stop)) with
  | none => simp
  | some party => simp

/-- The shorter licence is found, though a forbidden pattern describes the whole text. -/
theorem knownLicense_forbidden_shorter :
    ∃ scanner report,
      Built { thirdLicenses := ["ab"], forbiddenLicenses := ["abc"] } {} scanner ∧
      scanner.scanWindow ⟨"abc".toList.toArray, fun _ => 1⟩ = .ok report ∧
      Describes {} ["abc"] "abc".toList ∧
      ∃ finding ∈ report.findings, finding.start = 0 ∧ finding.kind = .license ∧
        finding.party ≠ .forbidden := by
  obtain ⟨scanner, report, built, done, looked⟩ := of_tryOut
    (show tryOut { thirdLicenses := ["ab"], forbiddenLicenses := ["abc"] }
        "(?P<known_license_1>ab|abc)" "abc"
        (fun scanner window found =>
          found.group? 1 = some (0, 2) ∧ scanner.slot? 1 = some .knownLicense ∧
            scanner.Counts window 0 2 ∧
            scanner.knownLicense? (normalText (slice window.text 0 2)) ≠ some .forbidden ∧
            scanner.knownLicense? "abc".toList = some .forbidden) = true by
      decide +kernel)
  obtain ⟨found, member, asked⟩ := looked
  obtain ⟨captured, named, counts, allowed, whole⟩ := of_decide_eq_true asked
  obtain ⟨finding, reported, license, start, -, exactly⟩ :=
    knownLicense_forbidden_iff built done member named captured counts
  refine ⟨scanner, report, built, done, (built.knownLicense?_eq_forbidden _).mp whole, finding,
    reported, start, license, ?_⟩
  intro forbidden
  exact allowed ((built.knownLicense?_eq_forbidden _).mpr (exactly.mp forbidden))

/-! ## Rounds -/

/-- No later pass is one of the same group. -/
def IsLast (pass : Pass) (passes : List Pass) : Prop :=
  (passes.filter fun other => other.group = pass.group).getLast? = some pass

theorem group?_eq_some_iff
    {node : Node}
    {text : Array Char}
    {passes : List Pass}
    (tells : found.Tells node text passes)
    (positive : 0 < group) :
    found.group? group = some (start, stop) ↔
      ⟨group, start, stop⟩ ∈ passes ∧ IsLast ⟨group, start, stop⟩ passes := by
  rw [tells.2.2 group positive]
  unfold IsLast
  constructor
  · intro last
    obtain ⟨⟨number, first, behind⟩, isLast, same⟩ := Option.map_eq_some_iff.mp last
    have member := List.mem_of_getLast? isLast
    rw [List.mem_filter, decide_eq_true_eq] at member
    cases same
    obtain ⟨member, rfl⟩ := member
    exact ⟨member, isLast⟩
  · rintro ⟨_, isLast⟩
    rw [isLast]
    rfl

/-- Of the groups that a match has passed, each one is asked about where it was passed last, and
nowhere else. What the other rounds have passed yields no finding. -/
theorem rounds_reported
    (built : Built rules limits scanner)
    {low high : Nat}
    (fits : scanner.composite.node.Fits low high)
    (done : scanner.scanWindow window = .ok report)
    (member : found ∈ scanner.taken window) :
    ∃ passes, found.Tells scanner.composite.node window.text passes ∧
      scanner.groupFindings window found ⊆ report.findings ∧
      ∀ finding, finding ∈ scanner.groupFindings window found ↔
        ∃ pass ∈ passes, IsLast pass passes ∧
          ∃ slot, scanner.slot? pass.group = some slot ∧
            scanner.Counts window pass.start pass.stop ∧
            finding = scanner.captureFinding window found slot pass.start pass.stop := by
  obtain ⟨passes, tells⟩ := findAll_tells fits ((taken_findAll scanner window).subset member)
  refine ⟨passes, tells, scanWindow_reports done member, ?_⟩
  intro finding
  unfold groupFindings
  rw [List.mem_filterMap]
  constructor
  · rintro ⟨group, numbered, yields⟩
    have positive : 0 < group := by
      rw [List.mem_range'_1] at numbered
      exact numbered.1
    unfold groupFinding? at yields
    split at yields
    · rename_i start stop slot captured named
      split at yields
      · rename_i counts
        cases yields
        obtain ⟨passed, isLast⟩ := (group?_eq_some_iff tells positive).mp captured
        exact ⟨_, passed, isLast, slot, named, counts, rfl⟩
      · cases yields
    · cases yields
  · rintro ⟨pass, passed, isLast, slot, named, counts, rfl⟩
    have numbered := built.slot_numbered named
    have captured := (group?_eq_some_iff tells (tells.2.1 pass passed)).mpr ⟨passed, isLast⟩
    exact ⟨pass.group, numbered, by simp only [groupFinding?, captured, named, if_pos counts]⟩

/-- The second of three owners is passed over by the third one, forbidden as it is. -/
theorem rounds_reported_middle :
    ∃ scanner report found, Built { forbiddenOwners := ["b"] } {} scanner ∧
      scanner.scanWindow ⟨"a,b,c".toList.toArray, fun _ => 1⟩ = .ok report ∧
      found ∈ scanner.taken ⟨"a,b,c".toList.toArray, fun _ => 1⟩ ∧ found.stop = 5 ∧
      scanner.knownOwner? "b".toList = some .forbidden ∧
      (∃ finding ∈ report.findings, finding.start = 0 ∧ finding.party = .third) ∧
      (∃ finding ∈ report.findings, finding.start = 4 ∧ finding.party = .third) ∧
      ∀ finding ∈ scanner.groupFindings ⟨"a,b,c".toList.toArray, fun _ => 1⟩ found,
        finding.start ≠ 2 := by
  obtain ⟨scanner, report, built, done, looked⟩ := of_tryOut
    (show tryOut { forbiddenOwners := ["b"] }
        "(?P<copyright_owner_1>a)(?:,(?P<copyright_owner_2>[bc]))*" "a,b,c"
        (fun scanner window found =>
          found.stop = 5 ∧ scanner.composite.node.reach? 0 = some 4 ∧
            scanner.knownOwner? "b".toList = some .forbidden ∧
            (scanner.groupFindings window found).map (fun finding =>
              (finding.start, finding.party)) = [(0, .third), (4, .third)]) = true by
      decide +kernel)
  obtain ⟨found, member, asked⟩ := looked
  obtain ⟨stop, reaches, forbidden, findings⟩ := of_decide_eq_true asked
  obtain ⟨passes, tells, reported, -⟩ :=
    rounds_reported built (Node.fits_of_reach? reaches) done member
  have two : ∀ finding ∈ scanner.groupFindings ⟨"a,b,c".toList.toArray, fun _ => 1⟩ found,
      (finding.start, finding.party) ∈ [(0, Party.third), (4, .third)] := by
    intro finding yielded
    rw [← findings]
    exact List.mem_map_of_mem yielded
  have each : ∀ place, (place, Party.third) ∈ [(0, Party.third), (4, .third)] →
      ∃ finding ∈ report.findings, finding.start = place ∧ finding.party = .third := by
    intro place listed
    rw [← findings] at listed
    obtain ⟨finding, yielded, same⟩ := List.mem_map.mp listed
    rw [Prod.mk.injEq] at same
    exact ⟨finding, reported yielded, same⟩
  refine ⟨scanner, report, found, built, done, member, stop, forbidden, each 0 (by simp),
    each 4 (by simp), ?_⟩
  intro finding yielded
  have listed := two finding yielded
  simp only [List.mem_cons, Prod.mk.injEq, List.not_mem_nil, or_false] at listed
  omega

end Scanner

end NoticeScan
