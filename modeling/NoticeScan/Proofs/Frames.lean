import NoticeScan.Proofs.Progress

/-!
# Reading an expression that stands in another one

An expression that is well formed by itself and captures nothing is read in the same way where it
stands inside a group of a longer expression: the group gets its branches, and nothing else of
what has been read before is touched.
-/

namespace NoticeScan.Regex

namespace Reading

/-! ## Runs -/

/-- One reading leads to another one by steps. -/
inductive Reaches : Reading → Reading → Prop where
  | refl (reading : Reading) : Reaches reading reading
  | step {reading next last : Reading} {token : Token} :
      reading.input.peek? = some token → reading.step token = .ok next → Reaches next last →
      Reaches reading last

/-- Everything has been read. -/
def Stuck (reading : Reading) : Prop :=
  reading.input.peek? = none

theorem stuck_of_rest
    {reading : Reading}
    (ended : reading.input.rest = []) :
    Stuck reading := by
  unfold Stuck Input.peek?
  rw [ended]

theorem Reaches.trans
    {first second third : Reading}
    (one : Reaches first second)
    (other : Reaches second third) :
    Reaches first third := by
  induction one with
  | refl => exact other
  | step peeked stepped _ inductionHypothesis =>
      exact .step peeked stepped (inductionHypothesis other)

/-- A run that ends with everything read goes through whatever the reading leads to. -/
theorem Reaches.through
    {reading middle last : Reading}
    (some : Reaches reading middle)
    (stuck : Stuck last)
    (whole : Reaches reading last) :
    Reaches middle last := by
  induction some with
  | refl => exact whole
  | step peeked stepped _ inductionHypothesis =>
      cases whole with
      | refl =>
          rw [Stuck, peeked] at stuck
          cases stuck
      | step peeked' stepped' rest =>
          rw [peeked] at peeked'
          cases peeked'
          rw [stepped] at stepped'
          cases stepped'
          exact inductionHypothesis rest

theorem reaches_of_run
    {steps : Nat}
    {reading last : Reading}
    (ran : run steps reading = .ok last) :
    Reaches reading last := by
  induction steps generalizing reading with
  | zero =>
      cases ran
      exact .refl last
  | succ steps inductionHypothesis =>
      unfold run at ran
      cases peeked : reading.input.peek? with
      | none =>
          simp only [peeked] at ran
          cases ran
          exact .refl last
      | some token =>
          simp only [peeked] at ran
          cases stepped : reading.step token with
          | error error => simp [stepped] at ran
          | ok next =>
              simp only [stepped] at ran
              exact .step peeked stepped (inductionHypothesis ran)

end Reading

/-! ## Frames -/

/-- The place of a text in a longer one: what follows it, how far it is from the start, the group
in which it stands and those around, and what has been read of the longer one. -/
structure Frame where
  post : List Char
  shift : Nat
  base : Level
  under : List Level
  groups : Groups
  mentioned : List (Nat × Nat)
  everywhere : List InlineFlag

/-- Branches of which the first one, which comes last, has something in front. -/
def prepend (front : List Item) : List (List Item) → List (List Item)
  | [] => []
  | [first] => [front ++ first]
  | branch :: rest => branch :: prepend front rest

namespace Frame

/-- A group of the text. -/
def nested (frame : Frame) (level : Level) : Level :=
  { level with start := level.start + frame.shift }

/-- The group in which the text stands, with what has been read of the text. -/
def bottom (frame : Frame) (level : Level) : Level :=
  match level.branches with
  | [] => { frame.base with entries := level.entries ++ frame.base.entries }
  | _ =>
      { frame.base with
        entries := level.entries
        branches := prepend (Reading.sequence frame.base) level.branches ++ frame.base.branches }

/-- The open groups from an inner one of the text on. -/
def stack (frame : Frame) : List Level → List Level
  | [] => frame.under
  | [last] => frame.bottom last :: frame.under
  | level :: rest => frame.nested level :: stack frame rest

/-- The innermost open group. -/
def top (frame : Frame) (level : Level) (outer : List Level) : Level :=
  match outer with
  | [] => frame.bottom level
  | _ => frame.nested level

/-- What the reading of a text by itself looks like in a longer text. -/
def lift (frame : Frame) (reading : Reading) : Reading where
  input := reading.input.onto frame.post frame.shift
  level := frame.top reading.level reading.outer
  outer := frame.stack reading.outer
  groups := frame.groups
  lookbehindFrom := reading.lookbehindFrom.map fun _ => frame.groups.widths.size
  mentioned := frame.mentioned
  everywhere := frame.everywhere

variable (frame : Frame)

theorem stack_cons
    (level : Level)
    (outer : List Level) :
    frame.stack (level :: outer) = frame.top level outer :: frame.stack outer := by
  cases outer with
  | nil => rfl
  | cons next rest => rfl

theorem bottom_flags
    (level : Level) :
    (frame.bottom level).flags = frame.base.flags := by
  unfold bottom
  split <;> rfl

theorem bottom_opener
    (level : Level) :
    (frame.bottom level).opener = frame.base.opener := by
  unfold bottom
  split <;> rfl

/-- An entry that is added at the bottom is added to the group around. -/
theorem bottom_entries
    (level : Level)
    (entry : Entry)
    (before : List Entry) :
    frame.bottom { level with entries := entry :: before } =
      { frame.bottom { level with entries := before } with
        entries := entry :: (frame.bottom { level with entries := before }).entries } := by
  unfold bottom
  simp only
  split <;> rfl

/-- A branch that ends at the bottom ends in the group around. -/
theorem bottom_nextBranch
    (level : Level) :
    frame.bottom
        { level with branches := Reading.sequence level :: level.branches, entries := [] } =
      { frame.bottom level with
        branches := Reading.sequence (frame.bottom level) :: (frame.bottom level).branches
        entries := [] } := by
  unfold bottom
  cases branches : level.branches with
  | nil =>
      simp only [prepend, Reading.sequence, List.reverse_append, List.flatMap_append,
        List.singleton_append]
  | cons branch rest =>
      simp only [prepend, Reading.sequence, List.cons_append]

end Frame

/-! ## Readings of texts that stand alone -/

/-- The open groups of a text that stands alone: none captures, and the last one is the text. -/
def Rooted (flags : Flags) : Level → List Level → Prop
  | level, [] => level.opener = .whole ∧ level.flags = flags
  | level, next :: rest =>
      level.opener ≠ .whole ∧ (∀ index, level.opener ≠ .capture index) ∧ Rooted flags next rest

/-- The reading of a text that stands alone and has met no group to refer to. -/
structure Alone (flags : Flags) (reading : Reading) : Prop where
  rooted : Rooted flags reading.level reading.outer
  groups : reading.groups = {}
  mentioned : reading.mentioned = []

/-- What is asked of a reading that goes on: no group has been met, nor the number of one. -/
structure Groupless (reading : Reading) : Prop where
  widths : reading.groups.widths.size = 1
  mentioned : reading.mentioned = []

theorem Rooted.replace
    {flags : Flags}
    {level other : Level}
    {outer : List Level}
    (rooted : Rooted flags level outer)
    (sameOpener : other.opener = level.opener)
    (sameFlags : other.flags = level.flags) :
    Rooted flags other outer := by
  cases outer with
  | nil => exact ⟨sameOpener.trans rooted.1, sameFlags.trans rooted.2⟩
  | cons next rest =>
      refine ⟨?_, ?_, rooted.2.2⟩
      · rw [sameOpener]
        exact rooted.1
      · rw [sameOpener]
        exact rooted.2.1

theorem widths_of_enterCapture
    {reading next : Reading}
    {input : Input}
    {start : Nat}
    {name : Option (List Char)}
    (entered : reading.enterCapture input start name = .ok next) :
    next.groups.widths.size = reading.groups.widths.size + 1 := by
  obtain ⟨groups, more, rfl⟩ := Reading.enterCapture_eq entered
  exact more

/-- Where no group has been met, none can be referred to by its number. -/
theorem pushNumbered_of_groups
    {reading next : Reading}
    {input : Input}
    {index width : Nat}
    (groups : reading.groups = {}) :
    reading.pushNumbered input index width ≠ .ok next := by
  intro read
  have few : reading.groups.widths.size ≤ index ∨ reading.groups.closed index = false := by
    rw [groups]
    cases index with
    | zero => exact Or.inr rfl
    | succ index => exact Or.inl (by simp)
  unfold Reading.pushNumbered at read
  rcases few with unknown | isOpen
  · rw [if_pos unknown] at read
    cases read
  · rw [isOpen] at read
    split at read
    · cases read
    · cases read

/-- A choice by a group that has not been met mentions its number. -/
theorem mentioned_of_branchIndex
    {reading : Reading}
    {name : List Char}
    {place index : Nat}
    {mentioned : List (Nat × Nat)}
    (groups : reading.groups = {})
    (none : reading.mentioned = [])
    (found : reading.branchIndex name place = .ok (index, mentioned)) :
    mentioned ≠ [] := by
  unfold Reading.branchIndex at found
  rw [groups, none] at found
  simp only [List.lookup_nil] at found
  split at found
  · cases found
  · split at found
    · cases found
    · cases found
    · split at found
      · cases found
      · simp only [Option.isSome_none, Bool.false_eq_true, if_false] at found
        cases found
        simp

namespace Alone

variable {frame : Frame} {reading next other : Reading} {mark : Nat} {behind : Input}
  {action : Action}

theorem top_flags
    (alone : Alone frame.base.flags reading) :
    (frame.lift reading).flags = reading.flags := by
  have rooted := alone.rooted
  unfold Frame.lift Reading.flags
  cases outer : reading.outer with
  | nil =>
      rw [outer] at rooted
      exact (frame.bottom_flags reading.level).trans rooted.2.symm
  | cons level rest => rfl

theorem top_entries
    (frame : Frame)
    (level : Level)
    (outer : List Level)
    (entry : Entry)
    (before : List Entry) :
    frame.top { level with entries := entry :: before } outer =
      { frame.top { level with entries := before } outer with
        entries := entry :: (frame.top { level with entries := before } outer).entries } := by
  cases outer with
  | nil => exact frame.bottom_entries level entry before
  | cons next rest => rfl

theorem lift_add
    (frame : Frame)
    (reading : Reading)
    (input : Input)
    (entry : Entry) :
    frame.lift (reading.add input entry) =
      (frame.lift reading).add (input.onto frame.post frame.shift) entry := by
  unfold Frame.lift Reading.add
  simp only [top_entries]

theorem lift_enter
    (frame : Frame)
    (reading : Reading)
    (input : Input)
    (opener : Opener)
    (start : Nat)
    (flags : Flags) :
    frame.lift (reading.enter input opener start flags) =
      (frame.lift reading).enter (input.onto frame.post frame.shift) opener
        (start + frame.shift) flags := by
  unfold Frame.lift Reading.enter
  simp only [Frame.stack_cons]
  rfl

theorem lift_enterLook
    (frame : Frame)
    (reading : Reading)
    (input : Input)
    (start : Nat)
    (behind negated : Bool)
    (sameFlags : (frame.lift reading).flags = reading.flags) :
    frame.lift (reading.enterLook input start behind negated) =
      (frame.lift reading).enterLook (input.onto frame.post frame.shift)
        (start + frame.shift) behind negated := by
  unfold Reading.enterLook
  rw [lift_enter, sameFlags]
  unfold Frame.lift
  cases reading.lookbehindFrom with
  | none => cases behind <;> rfl
  | some first => cases behind <;> rfl

theorem lift_closeGroup
    (frame : Frame)
    (reading : Reading)
    (input : Input)
    (level : Level)
    (outer : List Level)
    (opened : reading.outer = level :: outer)
    (noCapture : ∀ index, reading.level.opener ≠ .capture index) :
    frame.lift (reading.closeGroup input level outer) =
      (frame.lift reading).closeGroup (input.onto frame.post frame.shift)
        (frame.top level outer) (frame.stack outer) := by
  have inner : (frame.lift reading).level = frame.nested reading.level := by
    unfold Frame.lift
    rw [opened]
    rfl
  have entry : Reading.closedEntry (frame.nested reading.level) =
      Reading.closedEntry reading.level := rfl
  have opener : (frame.nested reading.level).opener = reading.level.opener := rfl
  unfold Reading.closeGroup
  rw [lift_add, inner, entry, opener]
  unfold Frame.lift
  cases kind : reading.level.opener with
  | capture index => exact absurd kind (noCapture index)
  | whole => rfl
  | plain => rfl
  | flagged => rfl
  | atomic => rfl
  | branch index => rfl
  | look behind negated outermost => cases behind <;> cases outermost <;> rfl

theorem alone_add
    {flags : Flags}
    (alone : Alone flags reading)
    (input : Input)
    (entry : Entry) :
    Alone flags (reading.add input entry) :=
  ⟨alone.rooted.replace rfl rfl, alone.groups, alone.mentioned⟩

theorem alone_enter
    {flags inner : Flags}
    (alone : Alone flags reading)
    (input : Input)
    {opener : Opener}
    (notWhole : opener ≠ .whole)
    (noCapture : ∀ index, opener ≠ .capture index)
    (start : Nat) :
    Alone flags (reading.enter input opener start inner) :=
  ⟨⟨notWhole, noCapture, alone.rooted⟩, alone.groups, alone.mentioned⟩

/-- What is done to a text alone is done to it in its frame. -/
theorem acts_lift
    (kept : frame.base.opener ≠ .whole ∨ next.everywhere = [])
    (alone : Alone frame.base.flags reading)
    (groupless : Groupless next)
    (acts : Acts reading mark behind action next)
    (inside : Acts (frame.lift reading) (mark + frame.shift)
      (behind.onto frame.post frame.shift) action other) :
    other = frame.lift next ∧ Alone frame.base.flags next ∧
      next.everywhere = reading.everywhere := by
  cases acts with
  | skip =>
      cases inside
      exact ⟨rfl, ⟨alone.rooted, alone.groups, alone.mentioned⟩, rfl⟩
  | item item =>
      cases inside
      exact ⟨(lift_add frame reading behind (.single item)).symm, alone.alone_add _ _, rfl⟩
  | repeating low high greed entry before place body entries repeatable =>
      cases inside with
      | repeating _ _ _ entry' before' place' body' entries' repeatable' =>
          have same : reading.level = { reading.level with entries := entry :: before } := by
            rw [← entries]
          have above := top_entries frame reading.level reading.outer entry before
          rw [← same] at above
          have listed : (frame.lift reading).level.entries =
              entry :: (frame.top { reading.level with entries := before }
                reading.outer).entries := by
            unfold Frame.lift
            rw [above]
          rw [listed] at entries'
          cases entries'
          have sameBody : body' = body := by
            have known := repeatable_place repeatable place'
            rw [known] at repeatable'
            exact (Except.ok.inj repeatable').symm
          subst sameBody
          rw [alone.top_flags]
          refine ⟨?_, ⟨alone.rooted.replace rfl rfl, alone.groups, alone.mentioned⟩, rfl⟩
          unfold Frame.lift
          simp only [top_entries, above]
  | opening opener flags kind sameFlags =>
      cases inside
      refine ⟨(lift_enter frame reading behind opener mark flags).symm, ?_, rfl⟩
      apply alone.alone_enter
      · rcases kind with rfl | rfl | rfl <;> decide
      · intro index
        rcases kind with rfl | rfl | rfl <;> simp
  | capture name next entered =>
      have more := widths_of_enterCapture entered
      have one := groupless.widths
      rw [alone.groups] at more
      simp only [List.size_toArray, List.length_cons, List.length_nil] at more
      omega
  | look isBehind negated =>
      cases inside
      refine ⟨(lift_enterLook frame reading behind mark isBehind negated
        alone.top_flags).symm, ?_, rfl⟩
      have opener : (reading.enterLook behind mark isBehind negated).level.opener =
          .look isBehind negated reading.lookbehindFrom.isNone := rfl
      refine ⟨⟨?_, ?_, alone.rooted⟩, alone.groups, alone.mentioned⟩
      · rw [opener]
        simp
      · rw [opener]
        simp
  | numbered index width next read =>
      exact absurd read (pushNumbered_of_groups alone.groups)
  | named name index next known read =>
      rw [alone.groups] at known
      cases known
  | branch name place index mentioned found =>
      exact absurd groupless.mentioned
        (mentioned_of_branchIndex alone.groups alone.mentioned found)
  | everywhere on some whole noBranches noEntries =>
      have rooted := alone.rooted
      cases outer : reading.outer with
      | nil =>
          rcases kept with inGroup | none
          · cases inside with
            | everywhere _ _ outside _ _ =>
                unfold Frame.lift at outside
                simp only [outer, Frame.top, Frame.bottom_opener] at outside
                exact absurd outside inGroup
          · exact absurd (List.append_eq_nil_iff.mp none).1 some
      | cons level rest =>
          rw [outer] at rooted
          exact absurd whole rooted.1
  | bar first =>
      cases inside
      refine ⟨?_, ⟨alone.rooted.replace rfl rfl, alone.groups, alone.mentioned⟩, rfl⟩
      unfold Reading.nextBranch Frame.lift
      cases outer : reading.outer with
      | nil =>
          simp only [Frame.top, Frame.bottom_nextBranch]
      | cons level rest => rfl
  | close level outer opened =>
      have rooted := alone.rooted
      rw [opened] at rooted
      cases inside with
      | close level' outer' opened' =>
          have stacked : (frame.lift reading).outer =
              frame.top level outer :: frame.stack outer := by
            unfold Frame.lift
            rw [opened, frame.stack_cons]
          rw [stacked] at opened'
          cases opened'
          refine ⟨?_, ⟨rooted.2.2.replace rfl rfl, ?_, alone.mentioned⟩, rfl⟩
          · exact (lift_closeGroup frame reading behind level outer opened rooted.2.1).symm
          · unfold Reading.closeGroup Reading.add
            simp only
            split
            · rename_i index captures
              exact absurd captures (rooted.2.1 index)
            · exact alone.groups

end Alone

/-! ## Runs in a frame -/

theorem Acts.input_eq
    {reading next : Reading}
    {mark : Nat}
    {behind : Input}
    {action : Action}
    (acts : Acts reading mark behind action next) :
    next.input = behind := by
  cases acts with
  | capture name next entered =>
      obtain ⟨groups, -, rfl⟩ := Reading.enterCapture_eq entered
      rfl
  | numbered index width next read =>
      obtain ⟨item, rfl⟩ := Reading.pushNumbered_eq read
      rfl
  | named name index next known read =>
      obtain ⟨item, rfl⟩ := Reading.pushAgain_eq read
      rfl
  | _ => rfl

/-- Groups and their numbers that have been met stay met. -/
theorem Acts.grows
    {reading next : Reading}
    {mark : Nat}
    {behind : Input}
    {action : Action}
    (acts : Acts reading mark behind action next) :
    reading.groups.widths.size ≤ next.groups.widths.size ∧
      (next.mentioned = [] → reading.mentioned = []) ∧
      (next.everywhere = [] → reading.everywhere = []) := by
  cases acts with
  | capture name next entered =>
      obtain ⟨groups, more, rfl⟩ := Reading.enterCapture_eq entered
      exact ⟨Nat.le_of_lt (Nat.lt_of_lt_of_eq (Nat.lt_succ_self _) more.symm), id, id⟩
  | numbered index width next read =>
      obtain ⟨item, rfl⟩ := Reading.pushNumbered_eq read
      exact ⟨Nat.le_refl _, id, id⟩
  | named name index next known read =>
      obtain ⟨item, rfl⟩ := Reading.pushAgain_eq read
      exact ⟨Nat.le_refl _, id, id⟩
  | branch name place index mentioned found =>
      refine ⟨Nat.le_refl _, fun none => ?_, id⟩
      rcases Reading.branchIndex_eq found with rfl | ⟨-, rfl⟩
      · exact none
      · exact (List.append_eq_nil_iff.mp none).1
  | close level outer opened =>
      exact ⟨Nat.le_of_eq (Reading.size_closeGroup level outer).symm, id, id⟩
  | everywhere on some whole noBranches noEntries =>
      refine ⟨Nat.le_refl _, id, ?_⟩
      intro none
      exact (List.append_eq_nil_iff.mp none).2
  | _ => exact ⟨Nat.le_refl _, id, id⟩

namespace Reading

theorem Reaches.groupless
    {reading final : Reading}
    (reaches : Reaches reading final)
    (groupless : Groupless final) :
    reading.groups.widths.size ≤ 1 ∧ reading.mentioned = [] := by
  induction reaches with
  | refl => exact ⟨Nat.le_of_eq groupless.widths, groupless.mentioned⟩
  | step _ stepped _ inductionHypothesis =>
      obtain ⟨few, none⟩ := inductionHypothesis groupless
      obtain ⟨input, _, action, behind, _, acts⟩ := step_obeys stepped
      exact ⟨Nat.le_trans acts.grows.1 few, acts.grows.2.1 none⟩

/-- What goes on without a group has met none by a step before. -/
theorem Reaches.groupless_next
    {reading next final : Reading}
    {mark : Nat}
    {behind : Input}
    {action : Action}
    (rest : Reaches next final)
    (groupless : Groupless final)
    (groups : reading.groups = {})
    (acts : Acts reading mark behind action next) :
    Groupless next := by
  have few := rest.groupless groupless
  have known := acts.grows.1
  rw [groups] at known
  exact ⟨Nat.le_antisymm few.1 known, few.2⟩

theorem Reaches.everywhere_eq_nil
    {reading final : Reading}
    (reaches : Reaches reading final)
    (none : final.everywhere = []) :
    reading.everywhere = [] := by
  induction reaches with
  | refl => exact none
  | step _ stepped _ inductionHypothesis =>
      obtain ⟨input, _, action, behind, _, acts⟩ := step_obeys stepped
      exact acts.grows.2.2 (inductionHypothesis none)

theorem Reaches.eq_of_stuck
    {reading final : Reading}
    (reaches : Reaches reading final)
    (stuck : Stuck reading) :
    final = reading := by
  cases reaches with
  | refl => rfl
  | step peeked _ _ =>
      rw [Stuck, peeked] at stuck
      cases stuck

end Reading

theorem Rooted.flags_eq
    {flags : Flags}
    {level : Level}
    {outer : List Level}
    (rooted : Rooted flags level outer)
    (bottom : outer = []) :
    level.flags = flags := by
  subst bottom
  exact rooted.2

theorem Action.nameless
    {reading next : Reading}
    {mark : Nat}
    {behind : Input}
    {action : Action}
    {flags : Flags}
    (alone : Alone flags reading)
    (groupless : Groupless next)
    (acts : Acts reading mark behind action next) :
    action.takesName = false := by
  cases acts with
  | capture name next entered =>
      have more := widths_of_enterCapture entered
      rw [alone.groups, groupless.widths] at more
      simp at more
  | named name index next known read =>
      rw [alone.groups] at known
      cases known
  | branch name place index mentioned found =>
      exact absurd groupless.mentioned
        (mentioned_of_branchIndex alone.groups alone.mentioned found)
  | _ => rfl

/-- What a text that stands alone asks for can be done in its frame, unless it is flags for the
whole expression. -/
theorem Alone.enabled_lift
    {frame : Frame}
    {reading next : Reading}
    {mark : Nat}
    {behind : Input}
    {action : Action}
    (noBranch : ∀ index, frame.base.opener ≠ .branch index)
    (alone : Alone frame.base.flags reading)
    (groupless : Groupless next)
    (none : next.everywhere = [])
    (acts : Acts reading mark behind action next) :
    Enabled (frame.lift reading) action := by
  cases acts with
  | skip => trivial
  | item item => trivial
  | opening opener flags kind sameFlags => trivial
  | look isBehind negated => trivial
  | repeating low high greed entry before place body entries repeatable =>
      have same : reading.level = { reading.level with entries := entry :: before } := by
        rw [← entries]
      have above := top_entries frame reading.level reading.outer entry before
      rw [← same] at above
      have listed : (frame.lift reading).level.entries =
          entry :: (frame.top { reading.level with entries := before }
            reading.outer).entries := by
        unfold Frame.lift
        rw [above]
      exact ⟨entry, _, place, body, listed, repeatable⟩
  | capture name next entered =>
      have more := widths_of_enterCapture entered
      rw [alone.groups, groupless.widths] at more
      simp at more
  | numbered index width next read =>
      exact absurd read (pushNumbered_of_groups alone.groups)
  | named name index next known read =>
      rw [alone.groups] at known
      cases known
  | branch name place index mentioned found =>
      exact absurd groupless.mentioned
        (mentioned_of_branchIndex alone.groups alone.mentioned found)
  | everywhere on some whole noBranches noEntries =>
      exact absurd (List.append_eq_nil_iff.mp none).1 some
  | bar first =>
      intro index opener
      cases outer : reading.outer with
      | nil =>
          unfold Frame.lift at opener
          rw [outer] at opener
          exact absurd ((frame.bottom_opener reading.level).symm.trans opener) (noBranch index)
      | cons level rest =>
          have inner : (frame.lift reading).level = frame.nested reading.level := by
            unfold Frame.lift
            rw [outer]
            rfl
          rw [inner] at opener ⊢
          exact first index opener
  | close level outer opened =>
      have stacked : (frame.lift reading).outer =
          frame.top level outer :: frame.stack outer := by
        unfold Frame.lift
        rw [opened, frame.stack_cons]
      unfold Enabled
      rw [stacked]
      exact List.cons_ne_nil _ _

/-- What is skipped up to the end of a text that stands alone, with no group open there, is no
comment of a verbose group. -/
theorem Alone.terse_of_skip
    {flags : Flags}
    {reading next final : Reading}
    {mark : Nat}
    {behind : Input}
    (terse : flags.verbose = false)
    (alone : Alone flags reading)
    (acts : Acts reading mark behind .skip next)
    (ended : behind.rest = [])
    (rest : Reading.Reaches next final)
    (closed : final.outer = []) :
    reading.flags.verbose = false := by
  cases acts with
  | skip =>
      rw [rest.eq_of_stuck (Reading.stuck_of_rest ended)] at closed
      have same : reading.flags = flags := alone.rooted.flags_eq closed
      rw [same]
      exact terse

section Runs

variable {frame : Frame} {reading next final : Reading} {token : Token}

/-- A step in a text that stands alone is one in its frame, if that can be gone on with. -/
theorem Alone.step_lift
    (terse : frame.base.flags.verbose = false)
    (quiet : Quiet frame.post)
    (alone : Alone frame.base.flags reading)
    (sound : reading.input.Sound)
    (peeked : reading.input.peek? = some token)
    (stepped : reading.step token = .ok next)
    (rest : Reading.Reaches next final)
    (closed : final.outer = [])
    (groupless : Groupless final)
    (goes :
      (frame.base.opener ≠ .whole ∧ ∃ other, (frame.lift reading).step token = .ok other) ∨
        (∀ index, frame.base.opener ≠ .branch index) ∧ next.everywhere = []) :
    (frame.lift reading).input.peek? = some token ∧
      (frame.lift reading).step token = .ok (frame.lift next) ∧
      Alone frame.base.flags next ∧ next.input.Sound ∧
      next.everywhere = reading.everywhere := by
  obtain ⟨input, dropped, action, behind, asked, acts⟩ := Reading.step_obeys stepped
  have nextGroupless := rest.groupless_next groupless alone.groups acts
  have nonempty : reading.input.rest ≠ [] := Input.rest_ne_nil_of_peek? peeked
  have further : action = .skip → reading.flags.verbose = true → behind.rest ≠ [] := by
    rintro rfl verbose ended
    rw [alone.terse_of_skip terse acts ended rest closed] at verbose
    cases verbose
  have nameless := Action.nameless alone nextGroupless acts
  obtain ⟨behindSound, -, onto⟩ :=
    lex_onto frame.shift quiet (Input.sound_of_drop dropped) nameless further asked
  have peekedThere : (frame.lift reading).input.peek? = some token :=
    (Input.peek?_onto frame.shift frame.post sound nonempty).trans peeked
  have droppedThere : (frame.lift reading).input.drop token.width =
      .ok (input.onto frame.post frame.shift) :=
    Input.drop_onto frame.shift quiet.notEscape (Input.width_le_of_peek? peeked) dropped
  have progress : ∃ other, (frame.lift reading).step token = .ok other := by
    rcases goes with ⟨-, succeeds⟩ | ⟨noBranch, none⟩
    · exact succeeds
    · rw [← alone.top_flags] at onto
      exact Reading.step_progress droppedThere onto
        (Alone.enabled_lift noBranch alone nextGroupless none acts)
  obtain ⟨other, steppedThere⟩ := progress
  obtain ⟨input', dropped', action', behind', asked', acts'⟩ := Reading.step_obeys steppedThere
  rw [droppedThere] at dropped'
  cases dropped'
  rw [alone.top_flags, onto] at asked'
  cases asked'
  obtain ⟨same, nextAlone, unchanged⟩ :=
    Alone.acts_lift (goes.imp And.left And.right) alone nextGroupless acts acts'
  subst same
  refine ⟨peekedThere, steppedThere, nextAlone, ?_, unchanged⟩
  rw [acts.input_eq]
  exact behindSound

/-- A text that is read to its end alone, without flags for the whole expression, is read in the
same way in its frame. -/
theorem Alone.reaches_lift
    (noBranch : ∀ index, frame.base.opener ≠ .branch index)
    (terse : frame.base.flags.verbose = false)
    (quiet : Quiet frame.post)
    (alone : Alone frame.base.flags reading)
    (sound : reading.input.Sound)
    (reaches : Reading.Reaches reading final)
    (closed : final.outer = [])
    (groupless : Groupless final)
    (none : final.everywhere = []) :
    Reading.Reaches (frame.lift reading) (frame.lift final) ∧
      Alone frame.base.flags final := by
  induction reaches with
  | refl => exact ⟨.refl _, alone⟩
  | step peeked stepped rest inductionHypothesis =>
      obtain ⟨peekedThere, steppedThere, nextAlone, nextSound, -⟩ :=
        alone.step_lift terse quiet sound peeked stepped rest closed groupless
          (Or.inr ⟨noBranch, rest.everywhere_eq_nil none⟩)
      obtain ⟨others, finalAlone⟩ := inductionHypothesis nextAlone nextSound closed groupless none
      exact ⟨.step peekedThere steppedThere others, finalAlone⟩

/-- A step in a text that stands alone is one of the run through the group in which it stands. -/
theorem Alone.step_within
    {last : Reading}
    (inGroup : frame.base.opener ≠ .whole)
    (terse : frame.base.flags.verbose = false)
    (quiet : Quiet frame.post)
    (alone : Alone frame.base.flags reading)
    (sound : reading.input.Sound)
    (peeked : reading.input.peek? = some token)
    (stepped : reading.step token = .ok next)
    (rest : Reading.Reaches next final)
    (closed : final.outer = [])
    (groupless : Groupless final)
    (stuck : Reading.Stuck last)
    (whole : Reading.Reaches (frame.lift reading) last) :
    Reading.Reaches (frame.lift next) last ∧ Alone frame.base.flags next ∧ next.input.Sound ∧
      next.everywhere = reading.everywhere := by
  have peekedThere : (frame.lift reading).input.peek? = some token :=
    (Input.peek?_onto frame.shift frame.post sound
      (Input.rest_ne_nil_of_peek? peeked)).trans peeked
  cases whole with
  | refl =>
      rw [Reading.Stuck, peekedThere] at stuck
      cases stuck
  | step peeked' stepped' rest' =>
      rw [peekedThere] at peeked'
      cases peeked'
      obtain ⟨-, steppedThere, nextAlone, nextSound, unchanged⟩ :=
        alone.step_lift terse quiet sound peeked stepped rest closed groupless
          (Or.inl ⟨inGroup, _, stepped'⟩)
      rw [steppedThere] at stepped'
      cases stepped'
      exact ⟨rest', nextAlone, nextSound, unchanged⟩

/-- A text that can be read in a group sets no flags for the whole expression. -/
theorem Alone.everywhere_eq
    {last : Reading}
    (inGroup : frame.base.opener ≠ .whole)
    (terse : frame.base.flags.verbose = false)
    (quiet : Quiet frame.post)
    (alone : Alone frame.base.flags reading)
    (sound : reading.input.Sound)
    (reaches : Reading.Reaches reading final)
    (closed : final.outer = [])
    (groupless : Groupless final)
    (stuck : Reading.Stuck last)
    (whole : Reading.Reaches (frame.lift reading) last) :
    final.everywhere = reading.everywhere := by
  induction reaches with
  | refl => rfl
  | step peeked stepped rest inductionHypothesis =>
      obtain ⟨further, nextAlone, nextSound, unchanged⟩ :=
        alone.step_within inGroup terse quiet sound peeked stepped rest closed groupless stuck whole
      exact (inductionHypothesis nextAlone nextSound closed groupless further).trans unchanged

end Runs

end NoticeScan.Regex
