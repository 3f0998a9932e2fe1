import NoticeScan.Pattern.Compiled
import NoticeScan.Proofs.Assembly

/-!
# Accepted patterns

A pattern is accepted if its whole form compiles, in which the inline form stands in a group. If
the inline form is an expression by itself as well, nothing in it reaches beyond that group, so
that it may stand in any group.
-/

namespace NoticeScan.Regex

/-- An expression that compiles is read to its end, where no group is open. -/
theorem reaches_of_compile
    {flags : Flags}
    {source : List Char}
    {regex : Regex}
    (compiled : Regex.compile flags source = .ok regex) :
    ∃ last, Reading.Reaches (Reading.start flags source) last ∧ last.Stuck ∧ last.outer = [] ∧
      regex.groupCount = last.groups.widths.size - 1 := by
  rw [Regex.compile] at compiled
  obtain ⟨input, checked, compiled⟩ := bind_eq_ok.mp compiled
  obtain ⟨last, ran, compiled⟩ := bind_eq_ok.mp compiled
  obtain ⟨items, finished, compiled⟩ := bind_eq_ok.mp compiled
  cases compiled
  have whole : input = ⟨source, 0⟩ := by
    rw [Input.checked] at checked
    split at checked
    · cases checked
    · exact (Except.ok.inj checked).symm
  subst whole
  have ended : last.input.rest = [] := Reading.rest_of_run (Nat.lt_succ_self _) ran
  have closed : last.outer = [] := by
    unfold Reading.finish at finished
    split at finished
    · cases finished
    · assumption
  refine ⟨last, Reading.reaches_of_run ran, ?_, closed, rfl⟩
  rw [Reading.Stuck, Input.peek?, ended]

theorem Ready.enter
    {deep : Bool}
    {flags : Flags}
    {names : List (List Char × Nat)}
    {before : Reading}
    (ready : Ready deep flags names before)
    (input : Input)
    (start : Nat) :
    Ready true flags names (before.enter input .plain start flags) :=
  ⟨rfl, by simp [Reading.enter], by simp [Reading.enter], ready.named, ready.forward⟩

end NoticeScan.Regex

namespace NoticeScan.Pattern

open NoticeScan.Regex

variable {limits : Limits} {pattern : String} {made : Compiled}

/-- The inline form of a pattern is an expression by itself, and has no groups. -/
def SelfContained (limits : Limits) (pattern : String) : Prop :=
  ∃ regex, Regex.compile flags (widen limits pattern.toList) = .ok regex ∧ regex.groupCount = 0

theorem selfContained_iff :
    ((Regex.compile flags (widen limits pattern.toList)).toOption.any
      fun regex => regex.groupCount == 0) = true ↔ SelfContained limits pattern := by
  rw [SelfContained]
  generalize Regex.compile flags (widen limits pattern.toList) = result
  cases result with
  | ok regex => simp [Except.toOption]
  | error error => simp [Except.toOption]

instance (limits : Limits) (pattern : String) : Decidable (SelfContained limits pattern) :=
  decidable_of_iff _ selfContained_iff

/-! ## The whole form -/

/-- Any text, as it stands at a loose edge. -/
theorem builds_anything
    (deep : Bool)
    (names : List (List Char × Nat)) :
    Builds deep flags names names "(?:.*)".toList := by
  have ends : (ending? flags ".*".toList).isSome = true := by decide +kernel
  have anything : group ".*".toList = "(?:.*)".toList := by decide
  rw [← anything]
  exact ((plain_of_ending? ends rfl).offers names).group

theorem ready_start (source : List Char) :
    Ready false flags [] (Reading.start flags source) :=
  ⟨rfl, by simp [Reading.start], by simp, ⟨rfl, rfl⟩, rfl⟩

/-- Reading the whole form opens a group, in which the inline form starts. -/
theorem reaches_group
    (text : List Char)
    (body : Expr) :
    ∃ before pos, Ready false flags [] before ∧ before.mentioned = [] ∧
      Reading.Reaches (Reading.start flags (wholeExpr text body))
        (before.enter
          ⟨body ++ ')' :: (if looseEnd text then "(?:.*)".toList else []), pos⟩ .plain
          before.input.pos flags) := by
  generalize edge : (if looseEnd text then "(?:.*)".toList else []) = tail
  have led : ∃ before, Ready false flags [] before ∧ before.mentioned = [] ∧
      before.input.rest = '(' :: '?' :: ':' :: (body ++ ')' :: tail) ∧
      Reading.Reaches (Reading.start flags (wholeExpr text body)) before := by
    have opening : "(?:".toList = ['(', '?', ':'] := by decide
    have start := ready_start (wholeExpr text body)
    cases loose : looseStart text with
    | false =>
        refine ⟨_, start, rfl, ?_, .refl _⟩
        delta Reading.start wholeExpr group
        dsimp only
        rw [opening, loose, if_neg Bool.false_ne_true, edge]
        simp only [List.nil_append, List.append_assoc, List.cons_append]
    | true =>
        obtain ⟨entries, adds, -⟩ := builds_anything false []
        have split : (Reading.start flags (wholeExpr text body)).input.rest =
            "(?:.*)".toList ++ '(' :: '?' :: ':' :: (body ++ ')' :: tail) := by
          delta Reading.start wholeExpr group
          dsimp only
          rw [opening, loose, if_pos rfl, edge]
          simp only [List.nil_append, List.append_assoc, List.cons_append]
        obtain ⟨pos, groups, named, reaches⟩ :=
          adds.reaches _ _ start split (quiet_cons rfl (by decide) _)
        exact ⟨_, start.goneOn named _ pos _ _, rfl, rfl, reaches⟩
  obtain ⟨before, ready, unmentioned, starts, reaches⟩ := led
  have entered := reaches_plain starts (ne_backslash_of_append (by simp))
  have same : before.flags = flags := ready.flags
  rw [same] at entered
  exact ⟨before, _, ready, unmentioned, reaches.trans entered⟩

/-- Reading the whole form comes to where the inline form starts in its group. -/
theorem reaches_body
    (text : List Char)
    (body : Expr) :
    ∃ reading tail, Ready true flags [] reading ∧ reading.input.rest = body ++ ')' :: tail ∧
      Reading.Reaches (Reading.start flags (wholeExpr text body)) reading := by
  obtain ⟨before, pos, ready, -, reaches⟩ := reaches_group text body
  exact ⟨_, _, ready.enter _ _, rfl, reaches⟩

/-- What an accepted pattern is made of. -/
theorem spec_of_compile
    (compiled : compile limits pattern = .ok made) :
    made.body = widen limits pattern.toList ∧
      Regex.compile flags (wholeExpr pattern.toList (widen limits pattern.toList)) =
        .ok made.regex := by
  rw [compile] at compiled
  split at compiled
  · cases compiled
  · dsimp only at compiled
    split at compiled
    · cases compiled
    · rename_i regex whole
      cases compiled
      exact ⟨rfl, whole⟩

/-- The inline form of an accepted pattern that is an expression by itself is read in a group, too,
where it stands in the whole form. -/
theorem SelfContained.inGroup
    (contained : SelfContained limits pattern)
    (compiled : compile limits pattern = .ok made) :
    ∃ (frame : Frame) (final last : Reading), frame.base.opener ≠ .whole ∧
      frame.base.flags = flags ∧ Quiet frame.post ∧
      Ended flags (widen limits pattern.toList) final ∧ last.Stuck ∧
      Reading.Reaches (frame.lift (Reading.start flags (widen limits pattern.toList))) last := by
  obtain ⟨regex, bodyCompiled, groupless⟩ := contained
  obtain ⟨final, ended, -⟩ := ended_of_compile bodyCompiled groupless
  obtain ⟨last, ran, stuck, -, -⟩ := reaches_of_compile (spec_of_compile compiled).2
  obtain ⟨reading, tail, ready, starts, reaches⟩ :=
    reaches_body pattern.toList (widen limits pattern.toList)
  have within := reaches.through stuck ran
  rw [← lift_start ready starts] at within
  exact ⟨reading.frame (')' :: tail), final, last, ready.inside rfl, ready.flags,
    quiet_cons rfl (by decide) tail, ended, stuck, within⟩

/-- The inline form of an accepted pattern is closed if it is an expression by itself: it cannot
set flags for a whole expression, since it is read in a group there. -/
theorem SelfContained.closed
    (contained : SelfContained limits pattern)
    (compiled : compile limits pattern = .ok made) :
    ∃ final, Closed flags (widen limits pattern.toList) final := by
  obtain ⟨frame, final, last, inGroup, base, quiet, ended, stuck, within⟩ :=
    contained.inGroup compiled
  have alone := Reading.alone_start flags (widen limits pattern.toList)
  have read := ended.reaches
  rw [← base] at alone read within
  have terse : frame.base.flags.verbose = false := by
    rw [base]
    rfl
  refine ⟨final, ended, ?_⟩
  exact Alone.everywhere_eq inGroup terse quiet alone ended.sound read ended.outer ended.groupless
    stuck within

theorem SelfContained.plain
    (contained : SelfContained limits pattern)
    (compiled : compile limits pattern = .ok made) :
    Plain flags made.body := by
  obtain ⟨final, closed⟩ := contained.closed compiled
  rw [(spec_of_compile compiled).1]
  exact closed.plain rfl

/-! ## Patterns that are accepted -/

/-- What may stand at an edge of the whole form. -/
theorem builds_edge
    (loose : Bool)
    (names : List (List Char × Nat)) :
    Builds false flags names names (if loose then "(?:.*)".toList else []) := by
  cases loose with
  | false => exact builds_nil names
  | true => exact builds_anything false names

/-- A pattern without problems is accepted if its inline form can stand anywhere. -/
theorem compile_of_plain
    (sound : findings pattern.toList = [])
    (plain : Plain flags (widen limits pattern.toList)) :
    ∃ made, compile limits pattern = .ok made := by
  have edge : Mild (if looseEnd pattern.toList then "(?:.*)".toList else []) := by
    cases looseEnd pattern.toList with
    | false => exact fun post quiet => quiet
    | true => exact mild_cons rfl (by decide) _
  have start := builds_edge (looseStart pattern.toList) []
  have middle : Builds false flags [] [] _ := (plain.offers []).group
  have whole := (start.append middle (mild_cons rfl (by decide) _)).append
    (builds_edge (looseEnd pattern.toList) []) edge
  obtain ⟨regex, compiled, -⟩ := whole.offers.compile
  have compiled' : Regex.compile flags
      (wholeExpr pattern.toList (widen limits pattern.toList)) = .ok regex := compiled
  rw [compile, sound]
  dsimp only
  rw [compiled']
  exact ⟨_, rfl⟩

end NoticeScan.Pattern
