import Mathlib
import NoticeScan.Proofs.Bounds
import NoticeScan.Proofs.Built
import NoticeScan.Proofs.Delivery
import NoticeScan.Proofs.LineIndex
import NoticeScan.Proofs.ScanRun

/-!
# The window of a scan

A scan of bytes asks for as many characters as there are bytes. Since bytes never show more
characters than there are of them, that cuts nothing off which belongs to the window. Every
finding lies in the window, and its lines are those of its two ends.
-/

namespace NoticeScan

open NoticeScan.Text NoticeScan.Scan

/-! ## Blocks of bytes -/

namespace Source

variable {size count : Nat} {bytes : List UInt8}

theorem blocks_flatten
    (positive : 0 < size)
    (enough : bytes.length ≤ count) :
    (blocks size count bytes).flatten = bytes := by
  induction count generalizing bytes with
  | zero =>
      rw [List.length_eq_zero_iff.mp (Nat.le_zero.mp enough)]
      rfl
  | succ count inductionHypothesis =>
      cases bytes with
      | nil => rfl
      | cons b rest =>
          have shorter : ((b :: rest).drop size).length ≤ count := by
            rw [List.length_drop]
            omega
          have cut : blocks size (count + 1) (b :: rest) =
              (b :: rest).take size :: blocks size count ((b :: rest).drop size) := rfl
          rw [cut, List.flatten_cons, inductionHypothesis shorter, List.take_append_drop]

theorem blocks_ne_nil
    (positive : 0 < size) :
    ∀ block ∈ blocks size count bytes, block ≠ [] := by
  induction count generalizing bytes with
  | zero => exact fun block none => absurd none List.not_mem_nil
  | succ count inductionHypothesis =>
      cases bytes with
      | nil => exact fun block none => absurd none List.not_mem_nil
      | cons b rest =>
          intro block member
          rcases List.mem_cons.mp member with rfl | later
          · rw [Ne, List.take_eq_nil_iff]
            rintro (zero | empty)
            · exact positive.ne' zero
            · exact List.cons_ne_nil b rest empty
          · exact inductionHypothesis block later

/-- The source of some bytes returns them in blocks. -/
theorem ofBytes_yields (bytes : List UInt8) :
    ∃ pieces, (ofBytes bytes blockSize).Yields pieces ∧ pieces.flatten = bytes :=
  ⟨blocks blockSize bytes.length bytes,
    ⟨blocks_ne_nil (by decide), Or.inl ⟨rfl, rfl⟩⟩,
    blocks_flatten (by decide) (Nat.le_refl _)⟩

end Source

/-! ## Bytes show no more characters than there are of them -/

theorem Text.Utf8.Reads.length_le
    {bytes : List UInt8}
    {glyphs : List Glyph}
    (reads : Utf8.Reads bytes glyphs) :
    glyphs.length ≤ bytes.length := by
  induction reads with
  | nil => exact Nat.le_refl 0
  | char c _ inductionHypothesis =>
      have encoded := List.length_pos_iff.mpr (Utf8.encodeChar_ne_nil c)
      rw [List.length_append, List.length_cons]
      omega
  | stray _ _ inductionHypothesis => exact Nat.succ_le_succ inductionHypothesis

namespace Reader

theorem Rewrites.length_le
    {text out : List Char}
    (rewrites : Rewrites text out) :
    out.length ≤ text.length := by
  induction rewrites with
  | nil => exact Nat.le_refl 0
  | quote member _ inductionHypothesis =>
      have spelled := List.length_pos_iff.mpr (spelling_ne_nil member)
      rw [List.length_append, List.length_cons]
      omega
  | keep _ _ inductionHypothesis => exact Nat.succ_le_succ inductionHypothesis

theorem wholeText_length_le (bytes : List UInt8) :
    (wholeText bytes).length ≤ bytes.length := by
  obtain ⟨glyphs, reads, rewrites⟩ := shows_iff.mpr (rfl : wholeText bytes = wholeText bytes)
  have written := rewrites.length_le
  rw [List.length_map] at written
  exact Nat.le_trans written reads.length_le

/-! ## Reading bytes -/

/-- A reader of some bytes, from which nothing has been read. -/
def ofBytes (name : String) (bytes : List UInt8) : Reader where
  name := name
  source := .ofBytes bytes Source.blockSize
  sizeHint := bytes.length

/-- A request for everything ends the reading and hands out all that is left. -/
theorem Stands.read_ends
    {blocks : List (List UInt8)} {count reads : Nat} {handed : List Char} {reader : Reader}
    (stop : IsStop blocks count)
    (stands : Stands blocks count reads handed reader) :
    ∃ rest done, reader.read (-1) = (.ok rest, done) ∧ done.ended = true ∧
      handed ++ rest.toList = wholeText (blocks.take count).flatten := by
  obtain ⟨next, filled, standsNext, enough⟩ :=
    stands.fillWhile stop (lacks (-1)) (Nat.lt_succ_self reader.source.fetches.length)
  have ended : next.ended = true := enough.resolve_right Bool.noConfusion
  have all : next.portion (-1) = next.buffer.size := rfl
  refine ⟨_, _, read_eq filled, ended, ?_⟩
  rw [all, Array.extract_size, standsNext.eq_of_ended ended]

theorem Stands.read_all
    {blocks : List (List UInt8)} {count reads : Nat} {handed : List Char} {reader : Reader}
    (stop : IsStop blocks count)
    (stands : Stands blocks count reads handed reader) :
    (reader.read (-1)).1 =
      .ok ((wholeText (blocks.take count).flatten).drop handed.length).toArray := by
  obtain ⟨rest, done, result, -, all⟩ := stands.read_ends stop
  rw [result, ← all, List.drop_left]

/-- The text that a reader of some bytes delivers: read at once or in part, it is the same one,
and the lines of what has been read are known. -/
theorem ofBytes_delivers
    (name : String)
    (bytes : List UInt8) :
    ∃ text : List Char, text.length ≤ bytes.length ∧
      ((ofBytes name bytes).read (-1)).1 = .ok text.toArray ∧
      ∀ size : Int, 0 ≤ size → ∃ next,
        (ofBytes name bytes).read size = (.ok (text.take size.toNat).toArray, next) ∧
          Indexed next (text.take size.toNat) := by
  obtain ⟨blocks, yields, whole⟩ := Source.ofBytes_yields bytes
  obtain ⟨count, stop⟩ := exists_isStop blocks
  have start : Stands blocks count 0 [] (ofBytes name bytes) :=
    stands_start yields name bytes.length
  refine ⟨wholeText (blocks.take count).flatten, ?_, start.read_all stop, ?_⟩
  · have shorter : (blocks.take count).flatten.length ≤ bytes.length := by
      rw [← whole]
      exact (List.take_sublist count blocks).flatten.length_le
    exact Nat.le_trans (wholeText_length_le _) shorter
  · intro size nonnegative
    obtain ⟨text, next, result, -, taken⟩ := start.read stop size
    have same : text = ((wholeText (blocks.take count).flatten).take size.toNat).toArray :=
      Array.toList_inj.mp (taken nonnegative)
    have fresh : Indexed (ofBytes name bytes) [] := indexed_start name _ bytes.length
    have indexed := fresh.read result
    rw [same] at result indexed
    exact ⟨next, result, indexed⟩

end Reader

/-! ## Where findings lie -/

/-- A text as a window, with the lines that its line feeds make. -/
def Window.ofText (text : List Char) : Window where
  text := text.toArray
  lineOf := Reader.lineIn text

/-- A finding lies in a window, and its lines are those of its two ends. -/
structure Finding.Placed (finding : Finding) (window : Window) : Prop where
  start_le : finding.start ≤ finding.stop
  stop_le : finding.stop ≤ window.text.size
  startLine : finding.startLine = window.lineOf finding.start
  endLine : finding.endLine = window.lineOf finding.stop

/-- The fragments collected up to a position lie in front of it. -/
structure Scan.Fragments.Placed (fragments : Fragments) (window : Window) (pos : Nat) :
    Prop where
  last : ∀ fragment ∈ fragments.last, fragment.finding.Placed window
  last_le : ∀ fragment ∈ fragments.last, fragment.stop ≤ pos
  earlier : ∀ fragment ∈ fragments.earlier, fragment.finding.Placed window

namespace Scan.Fragments.Placed

variable {fragments : Fragments} {window : Window} {pos : Nat} {next : Fragment}

theorem mono
    (placed : fragments.Placed window pos)
    {later : Nat}
    (le : pos ≤ later) :
    fragments.Placed window later :=
  ⟨placed.last, fun fragment is => Nat.le_trans (placed.last_le fragment is) le,
    placed.earlier⟩

theorem start
    (placed : fragments.Placed window pos)
    (lies : next.finding.Placed window)
    (behind : pos ≤ next.start) :
    (fragments.start next).Placed window next.stop := by
  rw [Fragments.start]
  by_cases kept : (fragments.count : Int) < fragments.limit
  · rw [if_pos kept]
    refine ⟨?_, ?_, ?_⟩
    · rintro fragment ⟨⟩
      exact lies
    · rintro fragment ⟨⟩
      exact Nat.le_refl _
    · intro fragment member
      rcases List.mem_append.mp member with last | earlier
      · exact placed.last fragment (Option.mem_toList.mp last)
      · exact placed.earlier fragment earlier
  · rw [if_neg kept]
    have later := placed.mono (Nat.le_trans behind lies.start_le)
    exact ⟨later.last, later.last_le, later.earlier⟩

/-- A fragment that is joined to the last one reaches from the start of that one to its own
end. -/
theorem add
    (placed : fragments.Placed window pos)
    (lies : next.finding.Placed window)
    (behind : pos ≤ next.start) :
    (fragments.add next).Placed window next.stop := by
  rw [Fragments.add]
  cases isLast : fragments.last with
  | none => exact placed.start lies behind
  | some prior =>
      dsimp only
      by_cases close : next.isCloseTo prior = true
      · rw [if_pos close]
        have priorLies := placed.last prior isLast
        have joined : prior.stop ≤ next.stop :=
          Nat.le_trans (Nat.le_trans (placed.last_le prior isLast) behind) lies.start_le
        refine ⟨?_, ?_, placed.earlier⟩
        · rintro fragment ⟨⟩
          exact ⟨Nat.le_trans priorLies.start_le joined, lies.stop_le, priorLies.startLine,
            lies.endLine⟩
        · rintro fragment ⟨⟩
          exact Nat.le_refl _
      · rw [if_neg close]
        exact placed.start lies behind

theorem findings
    (placed : fragments.Placed window pos) :
    ∀ finding ∈ fragments.findings, finding.Placed window := by
  intro finding member
  obtain ⟨fragment, kept, rfl⟩ := List.mem_map.mp member
  rw [Fragments.toList, List.mem_reverse, List.mem_append, Option.mem_toList] at kept
  rcases kept with last | earlier
  · exact placed.last fragment last
  · exact placed.earlier fragment earlier

end Scan.Fragments.Placed

/-- What has been found up to a position lies in the window. -/
structure Tally.Placed (tally : Tally) (window : Window) (pos : Nat) : Prop where
  findings : ∀ finding ∈ tally.findings, finding.Placed window
  fragments : tally.fragments.Placed window pos

theorem Tally.placed_empty
    (limit : Int)
    (window : Window) :
    Tally.Placed { fragments := { limit := limit } } window 0 := by
  refine ⟨?_, ?_, ?_, ?_⟩
  all_goals simp

namespace Scanner

section Places

variable {scanner : Scanner} {window : Window} {found : Regex.Found} {tally : Tally} {pos : Nat}

theorem normalText_nil : normalText [] = [] := by
  have nothing : ∀ (founds : List Regex.Found) (pos : Nat),
      collapseBetween #[] pos founds = [] := by
    intro founds
    induction founds with
    | nil => simp [collapseBetween, slice, collapse, collapseFrom]
    | cons found rest inductionHypothesis =>
        simp [collapseBetween, inductionHypothesis, slice, collapse, collapseFrom]
  rw [normalText, nothing]
  rfl

/-- A capture that counts is not empty. -/
theorem Counts.start_lt
    {start stop : Nat}
    (counts : scanner.Counts window start stop) :
    start < stop := by
  by_contra empty
  apply counts.1
  have nothing : slice window.text start stop = [] := by
    rw [slice, Array.toList_extract, List.extract_eq_take_drop]
    simp [Nat.sub_eq_zero_of_le (Nat.le_of_not_lt empty)]
  rw [nothing, normalText_nil]

theorem groupFindings_placed
    (inside : found.Inside window.text) :
    ∀ finding ∈ scanner.groupFindings window found, finding.Placed window := by
  intro finding member
  obtain ⟨group, slot, start, stop, -, captured, counts, rfl⟩ := exists_capture_of_mem member
  exact ⟨counts.start_lt.le, (inside.groups group start stop captured).2, rfl, rfl⟩

theorem countWhole_placed
    (inside : found.Inside window.text)
    (behind : pos ≤ found.start)
    (placed : tally.Placed window pos)
    (whole : List Char) :
    (scanner.countWhole window whole found tally).1.Placed window found.stop := by
  have later := placed.fragments.mono (Nat.le_trans behind inside.start_le)
  rw [countWhole]
  split
  · exact ⟨placed.findings, later⟩
  · split
    · refine ⟨?_, later⟩
      intro finding member
      rcases List.mem_cons.mp member with rfl | before
      · exact ⟨inside.start_le, inside.stop_le, rfl, rfl⟩
      · exact placed.findings finding before
    · exact ⟨placed.findings,
        placed.fragments.add ⟨inside.start_le, inside.stop_le, rfl, rfl⟩ behind⟩

/-- One match is counted behind those before it. -/
theorem countMatch_placed
    (inside : found.Inside window.text)
    (behind : pos ≤ found.start)
    (placed : tally.Placed window pos)
    {counted : Tally}
    {counts : Bool}
    (done : scanner.countMatch window found tally = .ok (counted, counts)) :
    counted.Placed window found.stop := by
  have result := countMatch_eq done
  by_cases whole : scanner.LooksAtWhole window found tally
  · rw [if_pos whole] at result
    have lies := scanner.countWhole_placed inside behind placed (wholeText window found)
    rw [← result] at lies
    exact lies
  · rw [if_neg whole, Prod.mk.injEq] at result
    rw [result.1]
    refine ⟨?_, ?_⟩
    · rw [Tally.findings_addCaptures]
      intro finding member
      rcases List.mem_append.mp member with ofGroup | before
      · exact scanner.groupFindings_placed inside finding (List.mem_reverse.mp ofGroup)
      · exact placed.findings finding before
    · rw [Tally.fragments_addCaptures]
      exact placed.fragments.mono (Nat.le_trans behind inside.start_le)

/-- All findings of a run lie in the window. -/
theorem countFrom_placed
    {bound : Nat}
    {search : Regex.Search}
    (within : search.pos ≤ window.text.size)
    (placed : tally.Placed window search.pos)
    {final : Tally}
    {stopped : Option EarlyStop}
    (done : scanner.countFrom window bound search tally = .ok (final, stopped)) :
    ∃ pos, final.Placed window pos := by
  induction bound generalizing search tally with
  | zero =>
      cases done
      exact ⟨_, placed⟩
  | succ bound inductionHypothesis =>
      rw [countFrom] at done
      cases next : scanner.composite.next? window.text search with
      | none =>
          rw [next] at done
          cases done
          exact ⟨_, placed⟩
      | some step =>
          obtain ⟨found, after⟩ := step
          obtain ⟨behind, inside, after_pos⟩ := Regex.next?_inside next within
          rw [next] at done
          dsimp only at done
          cases counting : scanner.countMatch window found tally with
          | error error =>
              rw [counting] at done
              cases done
          | ok result =>
              obtain ⟨counted, counts⟩ := result
              have lies := countMatch_placed inside behind placed counting
              rw [counting] at done
              dsimp only at done
              split at done
              · cases done
                exact ⟨_, lies⟩
              · rw [← after_pos] at lies
                exact inductionHypothesis (after_pos ▸ inside.stop_le) lies done

theorem scanWindow_placed
    {report : Report}
    (done : scanner.scanWindow window = .ok report) :
    ∀ finding ∈ report.findings, finding.Placed window := by
  rw [scanWindow] at done
  split at done
  · cases done
  · rename_i final stopped counting
    cases done
    obtain ⟨pos, placed⟩ :=
      countFrom_placed (Nat.zero_le _) (Tally.placed_empty scanner.threshold window) counting
    intro finding member
    rw [Tally.result, List.mem_append, List.mem_reverse] at member
    rcases member with found | collected
    · exact placed.findings finding found
    · split at collected
      · exact placed.fragments.findings finding collected
      · exact absurd collected List.not_mem_nil

end Places

/-! ## Scanning bytes -/

/-- The window that a scan of bytes looks at is the front of the text which the bytes show,
however few characters are asked for. -/
theorem scanBytes_eq
    {scanner : Scanner}
    (atLeastOne : 1 ≤ scanner.window)
    (name : String)
    (bytes : List UInt8) :
    ∃ text : List Char, ((Reader.ofBytes name bytes).read (-1)).1 = .ok text.toArray ∧
      (scanner.scanBytes name bytes).1 =
        scanner.scanWindow (.ofText (text.take scanner.window.toNat)) := by
  obtain ⟨text, shorter, all, reads⟩ := Reader.ofBytes_delivers name bytes
  refine ⟨text, all, ?_⟩
  have asked : 0 ≤ scanner.windowSize bytes.length := by
    rw [windowSize]
    split <;> omega
  have cut : text.take (scanner.windowSize bytes.length).toNat =
      text.take scanner.window.toNat := by
    rw [List.take_eq_take_iff, windowSize]
    split
    · rfl
    · rename_i within
      simp only [Bool.or_eq_true, decide_eq_true_eq, not_or, not_lt] at within
      omega
  obtain ⟨next, result, indexed⟩ := reads _ asked
  rw [cut] at result indexed
  have lines : (fun offset : Nat => next.lineNumber offset) =
      Reader.lineIn (text.take scanner.window.toNat) :=
    funext indexed.lineNumber
  have scanned : (scanner.scanBytes name bytes).1 =
      (scanner.scanNext (Reader.ofBytes name bytes) bytes.length).1 := rfl
  rw [scanned, scanNext, result]
  dsimp only
  rw [lines]
  rfl

/-- What a scan of bytes reports is decided by the window alone: by the first characters of the
text that a reader of the bytes delivers, as many as the scanner looks at. Every finding lies in
the window, and its lines are one more than the line feeds in front of its two ends. -/
theorem scanBytes_window
    (scanner : Scanner)
    (atLeastOne : 1 ≤ scanner.window)
    (name : String)
    (bytes : List UInt8) :
    ∃ text : List Char, ((Reader.ofBytes name bytes).read (-1)).1 = .ok text.toArray ∧
      let shown := text.take scanner.window.toNat
      (scanner.scanBytes name bytes).1 = scanner.scanWindow (.ofText shown) ∧
      (∀ (otherName : String) (otherBytes : List UInt8) (other : List Char),
        ((Reader.ofBytes otherName otherBytes).read (-1)).1 = .ok other.toArray →
        other.take scanner.window.toNat = shown →
        (scanner.scanBytes otherName otherBytes).1 = (scanner.scanBytes name bytes).1) ∧
      ∀ report, (scanner.scanBytes name bytes).1 = .ok report →
        ∀ finding ∈ report.findings,
          finding.start ≤ finding.stop ∧ finding.stop ≤ shown.length ∧
          finding.startLine = 1 + (shown.take finding.start).count '\n' ∧
          finding.endLine = 1 + (shown.take finding.stop).count '\n' := by
  obtain ⟨text, all, scanned⟩ := scanBytes_eq atLeastOne name bytes
  refine ⟨text, all, scanned, ?_, ?_⟩
  · intro otherName otherBytes other otherAll sameWindow
    obtain ⟨again, againAll, otherScanned⟩ := scanBytes_eq atLeastOne otherName otherBytes
    have same : again = other := by
      rw [otherAll] at againAll
      exact (congrArg Array.toList (Except.ok.inj againAll)).symm
    rw [otherScanned, scanned, same, sameWindow]
  · intro report done finding member
    have placed := scanWindow_placed (scanned.symm.trans done) finding member
    exact ⟨placed.start_le, placed.stop_le, placed.startLine, placed.endLine⟩

/-- Of a letter of two bytes, a line feed and two further letters, a window of three characters
ends with the first one of the second line. -/
theorem scanBytes_window_letter :
    ∃ (scanner : Scanner) (report : Report) (finding : Finding),
      1 ≤ scanner.window ∧
      (scanner.scanBytes "letter" [0xC3, 0xA9, 0x0A, 0x62, 0x62]).1 = .ok report ∧
      scanner.scanWindow (.ofText ['é', '\n', 'b']) = .ok report ∧
      finding ∈ report.findings ∧ finding.start = 2 ∧ finding.stop = 3 ∧
      finding.startLine = 2 ∧ finding.endLine = 2 := by
  have tried : ((lookingFor { thirdLicenses := ["b"] } "(?P<known_license_1>b)").toOption.any
      fun scanner =>
        (({ scanner with window := 3 } : Scanner).scanBytes "letter"
          [0xC3, 0xA9, 0x0A, 0x62, 0x62]).1.toOption.any
          fun report => report.findings.any
            fun finding => finding.start = 2 ∧ finding.stop = 3) = true := by
    decide +kernel
  obtain ⟨scanner, -, scanned⟩ := (Option.any_eq_true _ _).mp tried
  obtain ⟨report, reported, found⟩ := (Option.any_eq_true _ _).mp scanned
  obtain ⟨finding, member, placed⟩ := List.any_eq_true.mp found
  obtain ⟨start, stop⟩ := of_decide_eq_true placed
  have done := Regex.eq_ok_of_toOption reported
  obtain ⟨text, delivered, window, -, lines⟩ :=
    scanBytes_window { scanner with window := 3 } (show (1 : Int) ≤ 3 by decide) "letter"
      [0xC3, 0xA9, 0x0A, 0x62, 0x62]
  have read : ((Reader.ofBytes "letter" [0xC3, 0xA9, 0x0A, 0x62, 0x62]).read (-1)).1 =
      .ok #['é', '\n', 'b', 'b'] := by
    decide +kernel
  have whole : text = ['é', '\n', 'b', 'b'] :=
    congrArg Array.toList (Except.ok.inj (delivered.symm.trans read))
  subst whole
  obtain ⟨-, -, startLine, endLine⟩ := lines report done finding member
  rw [start] at startLine
  rw [stop] at endLine
  exact ⟨_, report, finding, show (1 : Int) ≤ 3 by decide, done, window.symm.trans done, member, start, stop,
    startLine, endLine⟩

end Scanner

end NoticeScan
