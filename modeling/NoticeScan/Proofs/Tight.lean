import NoticeScan.Proofs.Brackets
import NoticeScan.Proofs.Classes
import NoticeScan.Proofs.Composite

/-!
# Tight expressions in groups

An expression that can be read in a group is an expression by itself, without groups that have a
number, just when it is tight. So a pattern that is accepted is closed just when its inline form is
tight; the check of a pattern and the compilation of its whole form do not tell.
-/

namespace NoticeScan.Regex

/-! ## Steps -/

section Steps

variable {flags : Flags} {reading next : Reading} {mark : Nat} {input behind : Input}
  {action : Action} {token : Token}

/-- An action changes the number of open groups as it says. -/
theorem Acts.after_eq
    (acts : Acts reading mark behind action next) :
    action.after reading.outer.length = some next.outer.length := by
  cases acts with
  | capture name next entered =>
      obtain ⟨groups, -, rfl⟩ := Reading.enterCapture_eq entered
      rfl
  | numbered index width next read =>
      obtain ⟨item, rfl⟩ := Reading.pushNumbered_eq read
      rfl
  | named name index next known read =>
      obtain ⟨item, rfl⟩ := Reading.pushAgain_eq read
      rfl
  | close level outer opened =>
      rw [opened]
      rfl
  | _ => rfl

theorem Action.meetsGroup_eq_false
    (alone : Alone flags reading)
    (groupless : Groupless next)
    (acts : Acts reading mark behind action next) :
    action.meetsGroup = false := by
  cases acts with
  | capture name next entered =>
      have more := widths_of_enterCapture entered
      rw [alone.groups, groupless.widths] at more
      simp at more
  | named name index next known read =>
      rw [alone.groups] at known
      cases known
  | branch name place index mentioned found =>
      exact absurd groupless.mentioned
        (mentioned_of_branchIndex alone.groups alone.mentioned found)
  | _ => rfl

theorem Acts.groupless
    (alone : Alone flags reading)
    (meetsNone : action.meetsGroup = false)
    (acts : Acts reading mark behind action next) :
    Groupless next := by
  have one : reading.groups.widths.size = 1 := by
    rw [alone.groups]
    rfl
  cases acts with
  | capture name next entered => cases meetsNone
  | named name index next known read => cases meetsNone
  | branch name place index mentioned found => cases meetsNone
  | numbered index width next read =>
      exact absurd read (pushNumbered_of_groups alone.groups)
  | close level outer opened =>
      exact ⟨(Reading.size_closeGroup level outer).trans one, alone.mentioned⟩
  | _ => exact ⟨one, alone.mentioned⟩

theorem Input.next?_of_drop
    (peeked : input.peek? = some token)
    (dropped : input.drop token.width = .ok behind) :
    input.next? = .ok (some (token, behind)) := by
  unfold next?
  rw [peeked]
  dsimp only
  rw [dropped]

theorem Input.drop_token
    {rest : List Char}
    (starts : input.rest = token.text ++ rest)
    (sound : rest ≠ ['\\']) :
    input.drop token.width = .ok ⟨rest, input.pos + token.width⟩ := by
  unfold drop checked
  rw [starts]
  cases token with
  | plain c => exact if_neg sound
  | escaped c => exact if_neg sound

theorem mem_of_skipPast
    {c : Char}
    {steps : Nat}
    (sound : input.Sound)
    (read : input.skipPast c steps = .ok (some behind)) :
    c ∈ input.rest := by
  induction steps generalizing input with
  | zero => cases read
  | succ steps inductionHypothesis =>
      unfold Input.skipPast at read
      cases next : input.next? with
      | error error => simp [next] at read
      | ok taken =>
          cases taken with
          | none => simp [next] at read
          | some step =>
              obtain ⟨token, after⟩ := step
              have afterSound := (Input.next?_onto 0 quiet_nil.notEscape sound next).1
              simp only [next] at read
              rw [(Input.rest_of_next? sound next).1]
              split at read
              · rename_i same
                rw [same]
                exact List.mem_append_left _ (List.mem_singleton.mpr rfl)
              · exact List.mem_append_right _ (inductionHypothesis afterSound read)

/-- Without line feeds, a comment of a verbose expression does not end. -/
theorem rest_of_comment
    (verbose : flags.verbose = true)
    (sound : input.Sound)
    (noFeed : '\n' ∉ input.rest)
    (read : lex flags (.plain '#') input = .ok (action, behind)) :
    action = .skip ∧ behind.rest = [] := by
  have comment : lex flags (.plain '#') input = lexComment input := by
    unfold lex lexPlain
    simp [verbose, Reading.isLayout]
  rw [comment] at read
  refine ⟨lexComment_skip read, ?_⟩
  unfold lexComment at read
  obtain ⟨found, skipped, rest⟩ := bind_eq_ok.mp read
  cases found with
  | none =>
      cases rest
      rfl
  | some last => exact absurd (mem_of_skipPast sound skipped) noFeed

end Steps

/-! ## Expressions in groups -/

section Runs

variable {frame : Frame} {reading next final last : Reading} {token : Token}

/-- A step of a text that is read by itself, with no group and no flags for the whole, passes what
is tight. -/
theorem Alone.tight_of_step
    {flags : Flags}
    (terse : flags.verbose = false)
    (alone : Alone flags reading)
    (sound : reading.input.Sound)
    (noFeed : '\n' ∉ reading.input.rest)
    (peeked : reading.input.peek? = some token)
    (stepped : reading.step token = .ok next)
    (unchanged : next.everywhere = reading.everywhere)
    (rest : Reading.Reaches next final)
    (closed : final.outer = [])
    (groupless : Groupless final) :
    '\n' ∉ next.input.rest ∧
      tight reading.outer.length reading.input.rest =
        tight next.outer.length next.input.rest := by
  obtain ⟨input, dropped, action, behind, asked, acts⟩ := Reading.step_obeys stepped
  obtain ⟨starts, noEscape⟩ := Input.rest_of_next? sound (Input.next?_of_drop peeked dropped)
  rw [starts, List.mem_append, not_or] at noFeed
  have meetsNone := Action.meetsGroup_eq_false alone
    (rest.groupless_next groupless alone.groups acts) acts
  have noFlags : ∀ on, action ≠ .everywhere on := by
    rintro on rfl
    cases acts with
    | everywhere _ some _ _ _ => exact some (List.append_left_eq_self.mp unchanged)
  have silent : reading.flags.verbose = true → token ≠ .plain '#' := by
    rintro verbose rfl
    obtain ⟨rfl, ended⟩ := rest_of_comment verbose (Input.sound_of_drop dropped) noFeed.2 asked
    rw [alone.terse_of_skip terse acts ended rest closed] at verbose
    cases verbose
  obtain ⟨suffix, opens⟩ :=
    tight_lex (Input.sound_of_drop dropped) noEscape silent meetsNone noFlags asked
  rw [starts, opens, acts.after_eq, acts.input_eq]
  exact ⟨fun member => noFeed.2 (suffix.subset member), rfl⟩

/-- What can be read by itself, and in a group, is tight. -/
theorem Alone.tight_of_reaches
    (inGroup : frame.base.opener ≠ .whole)
    (terse : frame.base.flags.verbose = false)
    (quiet : Quiet frame.post)
    (alone : Alone frame.base.flags reading)
    (sound : reading.input.Sound)
    (noFeed : '\n' ∉ reading.input.rest)
    (reaches : Reading.Reaches reading final)
    (atEnd : final.input.rest = [])
    (closed : final.outer = [])
    (groupless : Groupless final)
    (stuck : Reading.Stuck last)
    (whole : Reading.Reaches (frame.lift reading) last) :
    tight reading.outer.length reading.input.rest = true := by
  induction reaches with
  | refl =>
      rw [atEnd, closed]
      rfl
  | @step reading next final token peeked stepped rest inductionHypothesis =>
      obtain ⟨further, nextAlone, nextSound, unchanged⟩ :=
        alone.step_within inGroup terse quiet sound peeked stepped rest closed groupless stuck whole
      obtain ⟨nextFeed, same⟩ := alone.tight_of_step terse sound noFeed peeked stepped
        unchanged rest closed groupless
      rw [same]
      exact inductionHypothesis nextAlone nextSound nextFeed atEnd closed groupless further

/-- A text that stands at the start of a group of a longer one, before which no group has been met,
with the parenthesis behind it that closes the group. -/
structure Frame.Fresh (frame : Frame) : Prop where
  opener : frame.base.opener = .plain
  branches : frame.base.branches = []
  entries : frame.base.entries = []
  around : frame.under ≠ []
  groups : frame.groups = {}
  closing : ∃ tail, frame.post = ')' :: tail ∧ '\n' ∉ tail

theorem Frame.Fresh.bottom_eq
    (fresh : frame.Fresh)
    (level : Level) :
    frame.bottom level =
      { frame.base with branches := level.branches, entries := level.entries } := by
  have empty : Reading.sequence frame.base = [] := by
    unfold Reading.sequence
    rw [fresh.entries]
    rfl
  unfold Frame.bottom
  split
  · rename_i none
    rw [fresh.entries, List.append_nil, none, ← fresh.branches]
  · rw [empty, prepend_nil, fresh.branches, List.append_nil]

theorem Frame.Fresh.entries_eq
    (fresh : frame.Fresh)
    (reading : Reading) :
    (frame.lift reading).level.entries = reading.level.entries := by
  unfold Frame.lift Frame.top
  dsimp only
  split
  · rw [fresh.bottom_eq]
  · rfl

theorem Frame.Fresh.notWhole
    (fresh : frame.Fresh)
    (alone : Alone frame.base.flags reading) :
    (frame.lift reading).level.opener ≠ .whole := by
  have rooted := alone.rooted
  unfold Frame.lift Frame.top
  dsimp only
  cases outer : reading.outer with
  | nil =>
      dsimp only
      rw [frame.bottom_opener, fresh.opener]
      decide
  | cons level rest =>
      rw [outer] at rooted
      exact rooted.1

theorem Frame.Fresh.outer_ne_nil
    (fresh : frame.Fresh)
    (reading : Reading) :
    (frame.lift reading).outer ≠ [] := by
  unfold Frame.lift
  cases reading.outer with
  | nil => exact fresh.around
  | cons level rest =>
      dsimp only
      rw [frame.stack_cons]
      exact List.cons_ne_nil _ _

/-- A comment of a verbose group would take the parenthesis that closes the group. -/
theorem Frame.Fresh.not_comment
    {flags : Flags}
    {input behind : Input}
    {mark : Nat}
    {action : Action}
    {there : Reading}
    (fresh : frame.Fresh)
    (noFeed : '\n' ∉ input.rest)
    (verbose : flags.verbose = true)
    (sound : (input.onto frame.post frame.shift).Sound)
    (asked : lex flags (.plain '#') (input.onto frame.post frame.shift) = .ok (action, behind))
    (acts : Acts (frame.lift reading) mark behind action there)
    (rest : Reading.Reaches there last)
    (closed : last.outer = []) :
    False := by
  obtain ⟨tail, post, tailFeed⟩ := fresh.closing
  have noFeedThere : '\n' ∉ (input.onto frame.post frame.shift).rest := by
    intro member
    rcases List.mem_append.mp member with here | later
    · exact noFeed here
    · rw [post] at later
      rcases List.mem_cons.mp later with same | later
      · cases same
      · exact tailFeed later
  obtain ⟨rfl, ended⟩ := rest_of_comment verbose sound noFeedThere asked
  cases acts with
  | skip =>
      rw [rest.eq_of_stuck (Reading.stuck_of_rest ended)] at closed
      exact fresh.outer_ne_nil reading closed

/-- What is done to a text in a group can be done to it alone, unless a group is met. -/
theorem Alone.enabled_of_lift
    {mark after : Nat}
    {behind : Input}
    {action : Action}
    {other : Reading}
    (fresh : frame.Fresh)
    (alone : Alone frame.base.flags reading)
    (meetsNone : action.meetsGroup = false)
    (opens : action.after reading.outer.length = some after)
    (acts : Acts (frame.lift reading) mark behind action other) :
    Enabled reading action := by
  cases acts with
  | skip => trivial
  | item item => trivial
  | opening opener flags kind sameFlags => trivial
  | look isBehind negated => trivial
  | repeating low high greed entry before place body entries repeatable =>
      rw [fresh.entries_eq] at entries
      exact ⟨entry, before, place, body, entries, repeatable⟩
  | capture name next entered => cases meetsNone
  | named name index next known read => cases meetsNone
  | branch name place index mentioned found => cases meetsNone
  | numbered index width next read => exact absurd read (pushNumbered_of_groups fresh.groups)
  | everywhere on some whole noBranches noEntries => exact absurd whole (fresh.notWhole alone)
  | bar first =>
      intro index opener
      have rooted := alone.rooted
      unfold Frame.lift Frame.top at first
      dsimp only at first
      cases outer : reading.outer with
      | nil =>
          rw [outer] at rooted
          rw [rooted.1] at opener
          cases opener
      | cons level rest =>
          rw [outer] at first
          exact first index opener
  | close level outer opened =>
      intro none
      rw [none] at opens
      cases opens

/-- A step in a tight text that stands in a group is one in the text alone. -/
theorem Alone.step_of_lift
    {there : Reading}
    (fresh : frame.Fresh)
    (alone : Alone frame.base.flags reading)
    (noFeed : '\n' ∉ reading.input.rest)
    (isTight : tight reading.outer.length reading.input.rest = true)
    (goesOn : reading.input.rest ≠ [])
    (peeked : (frame.lift reading).input.peek? = some token)
    (stepped : (frame.lift reading).step token = .ok there)
    (rest : Reading.Reaches there last)
    (closed : last.outer = []) :
    ∃ next, reading.input.peek? = some token ∧ reading.step token = .ok next ∧
      there = frame.lift next ∧ Alone frame.base.flags next ∧ '\n' ∉ next.input.rest ∧
      tight next.outer.length next.input.rest = true ∧
      next.everywhere = reading.everywhere := by
  obtain ⟨tail, post, -⟩ := fresh.closing
  have shut : Shut frame.post := by
    rw [post]
    exact shut_cons tail
  have sound : reading.input.Sound := ne_backslash_of_tight isTight
  obtain ⟨first, text, starts, noEscape, peekedHere⟩ := Input.exists_token sound goesOn
  have same : some first = some token :=
    peekedHere.symm.trans ((Input.peek?_onto frame.shift frame.post sound goesOn).symm.trans peeked)
  cases same
  rw [starts] at isTight noFeed
  have textSound : text ≠ ['\\'] := by
    rintro rfl
    rw [tight_lone noEscape] at isTight
    cases isTight
  have dropped := Input.drop_token starts textSound
  have droppedThere : (frame.lift reading).input.drop token.width = .ok (Input.onto
      ⟨text, reading.input.pos + token.width⟩ frame.post frame.shift) :=
    Input.drop_onto frame.shift shut.notEscape (Input.width_le_of_peek? peekedHere) dropped
  obtain ⟨input, dropped', action, behind, asked, acts⟩ := Reading.step_obeys stepped
  rw [droppedThere] at dropped'
  cases dropped'
  rw [alone.top_flags] at asked
  have inGroup : ∀ on, action ≠ .everywhere on := by
    rintro on rfl
    cases acts with
    | everywhere _ _ whole _ _ => exact fresh.notWhole alone whole
  have silent : reading.flags.verbose = true → token ≠ .plain '#' := by
    rintro verbose rfl
    have textFeed : '\n' ∉ text := fun member => noFeed (List.mem_append_right _ member)
    exact fresh.not_comment textFeed verbose (Input.sound_of_drop droppedThere) asked acts rest
      closed
  obtain ⟨meetsNone, behind, rfl, askedHere⟩ :=
    within_lex shut (Input.sound_of_drop dropped) isTight silent inGroup asked
  obtain ⟨suffix, opens⟩ :=
    tight_lex (Input.sound_of_drop dropped) noEscape silent meetsNone inGroup askedHere
  rw [opens] at isTight
  obtain ⟨after, opens, isTight⟩ := (Option.any_eq_true _ _).mp isTight
  obtain ⟨next, steppedHere, actsHere⟩ := Reading.step_acts dropped askedHere
    (alone.enabled_of_lift fresh meetsNone opens acts)
  have notWhole : frame.base.opener ≠ .whole := by
    rw [fresh.opener]
    decide
  obtain ⟨lifted, nextAlone, unchanged⟩ := Alone.acts_lift (Or.inl notWhole) alone
    (actsHere.groupless alone meetsNone) actsHere acts
  rw [actsHere.after_eq] at opens
  cases opens
  refine ⟨next, peekedHere, steppedHere, lifted, nextAlone, ?_, ?_, unchanged⟩
  · rw [actsHere.input_eq]
    exact fun member => noFeed (List.mem_append_right _ (suffix.subset member))
  · rw [actsHere.input_eq]
    exact isTight

/-- A tight text that is read in a group is read to its end alone. -/
theorem Alone.reaches_of_lift
    (fresh : frame.Fresh)
    (stuck : Reading.Stuck last)
    (closed : last.outer = [])
    (alone : Alone frame.base.flags reading)
    (noFeed : '\n' ∉ reading.input.rest)
    (isTight : tight reading.outer.length reading.input.rest = true)
    (whole : Reading.Reaches (frame.lift reading) last) :
    ∃ final, Reading.Reaches reading final ∧ final.input.rest = [] ∧ final.outer = [] ∧
      Alone frame.base.flags final ∧ final.everywhere = reading.everywhere ∧
      Reading.Reaches (frame.lift final) last := by
  generalize inside : frame.lift reading = here at whole
  induction whole generalizing reading with
  | refl =>
      subst inside
      have nonempty : (frame.lift reading).input.rest ≠ [] := by
        obtain ⟨tail, post, -⟩ := fresh.closing
        unfold Frame.lift Input.onto
        dsimp only
        rw [post]
        simp
      have more := Input.peek?_isSome nonempty
      rw [stuck] at more
      cases more
  | @step here there last token peeked stepped rest inductionHypothesis =>
      subst inside
      by_cases ended : reading.input.rest = []
      · rw [ended] at isTight
        have outermost : reading.outer = [] :=
          List.eq_nil_of_length_eq_zero (beq_iff_eq.mp isTight)
        exact ⟨reading, .refl _, ended, outermost, alone, rfl, .step peeked stepped rest⟩
      · obtain ⟨next, peekedHere, steppedHere, rfl, nextAlone, nextFeed, nextTight, unchanged⟩ :=
          alone.step_of_lift fresh noFeed isTight ended peeked stepped rest closed
        obtain ⟨final, reaches, atEnd, outermost, finalAlone, same, others⟩ :=
          inductionHypothesis stuck closed nextAlone nextFeed nextTight rfl
        exact ⟨final, .step peekedHere steppedHere reaches, atEnd, outermost, finalAlone,
          same.trans unchanged, others⟩

end Runs

/-! ## Groups around expressions -/

section Groups

variable {flags : Flags} {before final : Reading} {input : Input} {tail : List Char} {start : Nat}

theorem Alone.groupless
    {reading : Reading}
    (alone : Alone flags reading) :
    Groupless reading := by
  refine ⟨?_, alone.mentioned⟩
  rw [alone.groups]
  rfl

theorem fresh_enter
    (groups : before.groups = {})
    (noFeed : '\n' ∉ tail)
    (input : Input)
    (start : Nat) :
    ((before.enter input .plain start flags).frame (')' :: tail)).Fresh where
  opener := rfl
  branches := rfl
  entries := rfl
  around := List.cons_ne_nil _ _
  groups := groups
  closing := ⟨tail, rfl, noFeed⟩

/-- The group around an expression that has been read to its end is closed, and brings the items of
the expression along. -/
theorem reaches_leaving
    (forward : before.lookbehindFrom = none)
    (fresh : ((before.enter input .plain start flags).frame (')' :: tail)).Fresh)
    (atEnd : final.input.rest = [])
    (closed : final.outer = [])
    (looksAhead : final.lookbehindFrom = none)
    (sameFlags : final.level.flags = flags)
    (sound : tail ≠ ['\\']) :
    ∃ last, Reading.Reaches
      (((before.enter input .plain start flags).frame (')' :: tail)).lift final)
      (before.goneOn tail last before.level.branches
        (.bundle final.items :: before.level.entries) before.groups) := by
  rw [lift_final atEnd closed looksAhead, fresh.bottom_eq]
  have items : final.items = alternatives flags (Reading.branches final.level) := by
    rw [Reading.items, sameFlags]
  rw [items]
  have same : before.goneOn tail (final.input.pos + input.pos + 1) before.level.branches
      (.bundle (alternatives flags (Reading.branches final.level)) :: before.level.entries)
      before.groups =
      { before.goneOn tail (final.input.pos + input.pos + 1) before.level.branches
          (.bundle (alternatives flags (Reading.branches final.level)) :: before.level.entries)
          before.groups with lookbehindFrom := none } := by
    rw [← forward]
    rfl
  refine ⟨final.input.pos + input.pos + 1, ?_⟩
  rw [same]
  exact reaches_closing rfl rfl sound

/-- Nothing is wrong with what has been read of an expression that compiles and has no groups. -/
theorem late_of_compile
    {source : List Char}
    {regex : Regex}
    {last : Reading}
    {entry : Entry}
    (compiled : Regex.compile flags source = .ok regex)
    (none : regex.groupCount = 0)
    (ran : Reading.Reaches (Reading.start flags source) last)
    (stuck : last.Stuck)
    (listed : entry ∈ last.level.entries) :
    ∀ item ∈ entry.items, item.late = .none := by
  obtain ⟨final, ended, -⟩ := ended_of_compile compiled none
  have same : final = last :=
    (ran.through (Reading.stuck_of_rest ended.atEnd) ended.reaches).eq_of_stuck stuck
  have late := ended.branches_late
  rw [same] at late
  intro item member
  refine late _ (List.mem_reverse.mpr List.mem_cons_self) item (List.mem_flatMap.mpr ?_)
  exact ⟨entry, List.mem_reverse.mpr listed, member⟩

end Groups

end NoticeScan.Regex

namespace NoticeScan.Pattern

open NoticeScan.Regex NoticeScan.Scan

variable {limits : Limits} {pattern : String} {made : Compiled}

/-! ## Accepted patterns -/

/-- No line feed is left over in an inline form. -/
theorem notMem_widen (text : List Char) :
    '\n' ∉ widen limits text := by
  intro member
  cases solid_widenBlanks false _ _ member

/-- The inline form of an accepted pattern is closed if it is tight. -/
theorem closed_of_tight
    (compiled : compile limits pattern = .ok made)
    (isTight : tight 0 made.body = true) :
    ∃ final, Closed flags made.body final := by
  obtain ⟨body, wholeCompiled⟩ := spec_of_compile compiled
  rw [← body] at wholeCompiled
  have noFeed : '\n' ∉ made.body := by
    rw [body]
    exact notMem_widen _
  obtain ⟨last, ran, stuck, closed, count⟩ := reaches_of_compile wholeCompiled
  obtain ⟨before, pos, ready, unmentioned, reaches⟩ :=
    reaches_group pattern.toList made.body
  obtain ⟨entries, edge, -⟩ := builds_edge (looseEnd pattern.toList) []
  have edgeFeed : '\n' ∉ (if looseEnd pattern.toList then "(?:.*)".toList else []) := by
    cases looseEnd pattern.toList <;> decide
  generalize (if looseEnd pattern.toList then "(?:.*)".toList else []) = tail at *
  -- What is read in the group that the whole form opens is read by itself in the same way.
  have within := reaches.through stuck ran
  have noGroups : before.groups = {} :=
    (reaches.lone (Reading.lone_start _ _) ⟨ready.named.widths, unmentioned⟩).groups
  let around : Input := ⟨made.body ++ ')' :: tail, pos⟩
  have fresh : ((before.enter around .plain before.input.pos flags).frame (')' :: tail)).Fresh :=
    fresh_enter noGroups edgeFeed around before.input.pos
  rw [← lift_start (ready.enter _ _) rfl] at within
  obtain ⟨final, read, atEnd, finalClosed, finalAlone, everywhere, others⟩ :=
    Alone.reaches_of_lift fresh stuck closed (Reading.alone_start flags made.body) noFeed isTight
      within
  have lone := read.lone (Reading.lone_start _ _) finalAlone.groupless
  have rooted := finalAlone.rooted
  rw [finalClosed] at rooted
  -- The whole form has no more groups, so that its check covers the items of this one.
  obtain ⟨after, left⟩ := reaches_leaving ready.forward fresh atEnd finalClosed
    (lone.lookbehindFrom_eq finalClosed rooted.1) rooted.2 edge.sound
  have behind := ready.goneOn ready.named tail after before.level.branches
    (.bundle final.items :: before.level.entries)
  obtain ⟨stop, groups, named, further⟩ :=
    edge.reaches _ [] behind (List.append_nil tail).symm quiet_nil
  have isLast := ((left.trans further).through stuck others).eq_of_stuck rfl
  have groupless : made.regex.groupCount = 0 := by
    rw [count, isLast]
    exact congrArg (· - 1) named.widths
  have listed : .bundle final.items ∈ last.level.entries := by
    rw [isLast]
    exact List.mem_append_right _ List.mem_cons_self
  have late := late_of_compile wholeCompiled groupless ran stuck listed
  exact ⟨final, ⟨ne_backslash_of_tight isTight, read, atEnd, finalClosed, finalAlone.groupless,
    (late_ofItems _).mpr late⟩, everywhere⟩

theorem SelfContained.of_closed
    {final : Reading}
    (closed : Closed flags (widen limits pattern.toList) final) :
    SelfContained limits pattern := by
  have late := closed.late
  rw [Reading.items, closed.flags_eq rfl] at late
  obtain ⟨regex, compiled, -, -, count⟩ := (closed.splits rfl []).compile late
  exact ⟨regex, compiled, count⟩

/-- The inline form of an accepted pattern is tight if it is an expression by itself. -/
theorem SelfContained.isTight
    (contained : SelfContained limits pattern)
    (compiled : compile limits pattern = .ok made) :
    tight 0 made.body = true := by
  obtain ⟨frame, final, last, inGroup, base, quiet, ended, stuck, within⟩ :=
    contained.inGroup compiled
  obtain ⟨body, -⟩ := spec_of_compile compiled
  rw [body]
  have alone := Reading.alone_start flags (widen limits pattern.toList)
  have read := ended.reaches
  rw [← base] at alone read within
  have terse : frame.base.flags.verbose = false := by
    rw [base]
    rfl
  exact Alone.tight_of_reaches inGroup terse quiet alone ended.sound (notMem_widen _) read
    ended.atEnd ended.outer ended.groupless stuck within

/-- An accepted pattern is an expression by itself, without groups, exactly if its inline form is
tight. Then it leaves the groups around it as they are: with other alternatives of this kind beside
it in the group of a slot, that group gets its name and the next number, and no other group is
added. -/
theorem compile_selfContained_iff_tight
    (compiled : compile limits pattern = .ok made) :
    (SelfContained limits pattern ↔ tight 0 made.body = true) ∧
      (tight 0 made.body = true → Plain flags made.body ∧
        ∀ before after : List Expr, (∀ body ∈ before ++ after, Plain flags body) →
          ∀ slot number names, names.lookup (groupName slot number) = none →
            Builds true flags names (enlist names (groupName slot number))
              (capture slot number (oneOf (before ++ made.body :: after)))) := by
  have contained : tight 0 made.body = true → SelfContained limits pattern := by
    intro isTight
    obtain ⟨final, closed⟩ := closed_of_tight compiled isTight
    rw [(spec_of_compile compiled).1] at closed
    exact .of_closed closed
  refine ⟨⟨fun alone => alone.isTight compiled, contained⟩, fun isTight => ?_⟩
  have plain := (contained isTight).plain compiled
  refine ⟨plain, fun before after others slot number names new => ?_⟩
  refine builds_capture slot number (Plain.oneOf (by simp) ?_) new
  intro body member
  rcases List.mem_append.mp member with early | late
  · exact others body (List.mem_append_left _ early)
  · rcases List.mem_cons.mp late with rfl | late
    · exact plain
    · exact others body (List.mem_append_right _ late)

/-- A pattern with a comment, an escaped parenthesis and one in a class. -/
def tightSample : String :=
  "(?#also)foo\\) (?:[)]|bar)+"

theorem compile_selfContained_iff_tight_sample :
    ∃ made, compile {} tightSample = .ok made ∧ tight 0 made.body = true ∧
      Builds true flags [] (enlist [] (groupName .knownLicense 1))
        (capture .knownLicense 1 (oneOf [made.body, made.body])) := by
  have accepted : (compile {} tightSample).toOption.isSome = true := by decide +kernel
  obtain ⟨made, some⟩ := Option.isSome_iff_exists.mp accepted
  have compiled := eq_ok_of_toOption some
  have contained : SelfContained {} tightSample := by decide +kernel
  obtain ⟨exactly, joins⟩ := compile_selfContained_iff_tight compiled
  have isTight := exactly.mp contained
  obtain ⟨plain, joined⟩ := joins isTight
  refine ⟨made, compiled, isTight, ?_⟩
  refine joined [] [made.body] ?_ .knownLicense 1 [] rfl
  intro body member
  cases List.mem_singleton.mp member
  exact plain

-- Two patterns that are accepted: one closes the group of the whole form and opens another one,
-- the other one has a group behind a comment that a check takes for the start of a class.
example :
    (compile {} "a)(?:b").toOption.map (tight 0 ·.body) = some false ∧
      (compile {} "(?#[)(foo)]").toOption.map (tight 0 ·.body) = some false := by
  decide +kernel

end NoticeScan.Pattern
