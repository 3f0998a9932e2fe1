import NoticeScan.Proofs.Actions

/-!
# Progress of reading

A step does not fail when the text asks for something that can be done to the open groups.
-/

namespace NoticeScan.Regex

/-- What can be done to the open groups, references to groups that capture left out. -/
def Enabled (reading : Reading) : Action → Prop
  | .skip | .item _ | .opening _ _ | .look _ _ | .capture none => True
  | .capture (some name) => reading.groups.names.lookup name = none
  | .repeating _ _ _ =>
      ∃ entry before place body,
        reading.level.entries = entry :: before ∧ entry.repeatable place = .ok body
  | .bar => ∀ index, reading.level.opener = .branch index → reading.level.branches = []
  | .close => reading.outer ≠ []
  | .numbered _ _ | .named _ | .branch _ | .everywhere _ => False

theorem repeatable_place
    {entry : Entry}
    {place : Nat}
    {body : Part}
    (repeatable : entry.repeatable place = .ok body)
    (other : Nat) :
    entry.repeatable other = .ok body := by
  cases entry with
  | bundle items => exact repeatable
  | single item =>
      unfold Entry.repeatable at repeatable ⊢
      cases kind : item.kind with
      | leaf leaf =>
          dsimp only at repeatable ⊢
          rw [kind] at repeatable ⊢
          cases leaf with
          | place sign => cases repeatable
          | _ => exact repeatable
      | repeated =>
          dsimp only at repeatable
          rw [kind] at repeatable
          cases repeatable
      | other =>
          dsimp only at repeatable ⊢
          rw [kind] at repeatable ⊢
          exact repeatable

namespace Reading

variable {reading : Reading} {input behind : Input} {action : Action}

theorem readEscape_progress
    {c : Char}
    (enabled : Enabled reading action)
    (asked : lexEscape reading.flags c input = .ok (action, behind)) :
    ∃ next, reading.readEscape c input = .ok next := by
  unfold lexEscape at asked
  unfold readEscape
  obtain ⟨⟨escape, last⟩, read, rest⟩ := bind_eq_ok.mp asked
  rw [read]
  cases escape with
  | group index =>
      cases rest
      exact absurd enabled id
  | _ => exact ⟨_, rfl⟩

theorem readClass_progress
    (asked : lexClass reading.flags input = .ok (action, behind)) :
    ∃ next, reading.readClass input = .ok next := by
  unfold lexClass at asked
  unfold readClass
  obtain ⟨⟨negated, members, last⟩, read, rest⟩ := bind_eq_ok.mp asked
  rw [read]
  exact ⟨_, rfl⟩

theorem repeatLast_progress
    {bounds : Bounds}
    (enabled : Enabled reading action)
    (asked : lexBounds bounds.low bounds.high input = .ok (action, behind))
    (place : Nat) :
    ∃ next, reading.repeatLast bounds place input = .ok next := by
  unfold lexBounds at asked
  obtain ⟨⟨greed, last⟩, greedy, rest⟩ := bind_eq_ok.mp asked
  cases rest
  obtain ⟨entry, before, other, body, entries, repeatable⟩ := enabled
  unfold repeatLast
  rw [entries]
  dsimp only
  rw [repeatable_place repeatable place, greedy]
  exact ⟨_, rfl⟩

theorem readRepeat_progress
    {c : Char}
    (enabled : Enabled reading action)
    (asked : lexRepeat reading.flags c input = .ok (action, behind)) :
    ∃ next, reading.readRepeat c input = .ok next := by
  unfold lexRepeat at asked
  unfold readRepeat
  dsimp only
  split at asked
  · rename_i question
    rw [if_pos question]
    exact repeatLast_progress enabled asked _
  · rename_i noQuestion
    rw [if_neg noQuestion]
    split at asked
    · rename_i star
      rw [if_pos star]
      exact repeatLast_progress enabled asked _
    · rename_i noStar
      rw [if_neg noStar]
      split at asked
      · rename_i plus
        rw [if_pos plus]
        exact repeatLast_progress enabled asked _
      · rename_i noPlus
        rw [if_neg noPlus]
        split at asked
        · rename_i closes
          rw [if_pos closes]
          exact ⟨_, rfl⟩
        · rename_i opens
          rw [if_neg opens]
          obtain ⟨found, braced, rest⟩ := bind_eq_ok.mp asked
          rw [braced]
          cases found with
          | none => exact ⟨_, rfl⟩
          | some found =>
              obtain ⟨bounds, last⟩ := found
              exact repeatLast_progress enabled rest _

theorem readBehind_progress
    (asked : lexBehind input = .ok (action, behind))
    (start : Nat) :
    ∃ next, reading.readBehind start input = .ok next := by
  unfold lexBehind at asked
  unfold readBehind
  obtain ⟨taken, first, rest⟩ := bind_eq_ok.mp asked
  rw [first]
  dsimp only [bind, Except.bind]
  split at rest
  · cases rest
  · exact ⟨_, rfl⟩
  · exact ⟨_, rfl⟩
  · cases rest

theorem readFlags_progress
    {first : Char}
    (enabled : Enabled reading action)
    (asked : lexFlags reading.flags first input = .ok (action, behind))
    (start : Nat) :
    ∃ next, reading.readFlags first start input = .ok next := by
  unfold lexFlags at asked
  unfold readFlags
  obtain ⟨⟨list, last⟩, read, rest⟩ := bind_eq_ok.mp asked
  rw [read]
  rcases list with ⟨on⟩ | ⟨on, off⟩
  · cases rest
    exact absurd enabled id
  · exact ⟨_, rfl⟩

theorem enterCapture_progress
    {name : Option (List Char)}
    (enabled : Enabled reading (.capture name))
    (start : Nat) :
    ∃ next, reading.enterCapture input start name = .ok next := by
  unfold enterCapture
  cases name with
  | none => exact ⟨_, rfl⟩
  | some name =>
      have unknown : reading.groups.names.lookup name = none := enabled
      dsimp only
      rw [unknown]
      exact ⟨_, rfl⟩

theorem readNamed_progress
    (enabled : Enabled reading action)
    (asked : lexNamed input = .ok (action, behind))
    (start : Nat) :
    ∃ next, reading.readNamed start input = .ok next := by
  unfold lexNamed at asked
  unfold readNamed
  obtain ⟨taken, first, rest⟩ := bind_eq_ok.mp asked
  rw [first]
  dsimp only [bind, Except.bind]
  split at rest
  · cases rest
  · obtain ⟨⟨name, inside⟩, read, rest⟩ := bind_eq_ok.mp rest
    cases rest
    simp only [read]
    exact enterCapture_progress enabled start
  · obtain ⟨⟨name, inside⟩, read, rest⟩ := bind_eq_ok.mp rest
    cases rest
    exact absurd enabled id
  · cases rest

theorem readExtension_flag
    {c : Char}
    {inside : Input}
    (flag : (c == '-' || (InlineFlag.ofLetter? c).isSome) = true)
    (taken : inside.next? = .ok (some (.plain c, input)))
    (start : Nat) :
    reading.readExtension start inside = reading.readFlags c start input := by
  unfold readExtension
  rw [taken]
  dsimp only [bind, Except.bind]
  split
  case h_9 =>
    rename_i same
    cases same
    rw [if_pos flag]
  case h_10 =>
    rename_i same
    cases same
  all_goals
    rename_i same
    cases same
    exact absurd flag (by decide)

theorem readExtension_progress
    {token : Token}
    {inside : Input}
    (taken : inside.next? = .ok (some (token, input)))
    (enabled : Enabled reading action)
    (asked : lexExtension reading.flags token input = .ok (action, behind))
    (start : Nat) :
    ∃ next, reading.readExtension start inside = .ok next := by
  unfold lexExtension at asked
  split at asked
  case h_9 =>
    split at asked
    · rename_i flag
      rw [readExtension_flag flag taken]
      exact readFlags_progress enabled asked start
    · cases asked
  all_goals
    unfold readExtension
    rw [taken]
    dsimp only [bind, Except.bind]
  · exact readNamed_progress enabled asked start
  · exact ⟨_, rfl⟩
  · exact ⟨_, rfl⟩
  · exact ⟨_, rfl⟩
  · exact ⟨_, rfl⟩
  · exact readBehind_progress asked start
  · obtain ⟨⟨name, last⟩, _, rest⟩ := bind_eq_ok.mp asked
    cases rest
    exact absurd enabled id
  · obtain ⟨found, skipped, rest⟩ := bind_eq_ok.mp asked
    cases found with
    | none => cases rest
    | some last =>
        rw [skipped]
        exact ⟨_, rfl⟩
  · cases asked

theorem readOpening_progress
    (enabled : Enabled reading action)
    (asked : lexOpening reading.flags input = .ok (action, behind)) :
    ∃ next, reading.readOpening input = .ok next := by
  unfold lexOpening at asked
  unfold readOpening
  obtain ⟨question, taken, rest⟩ := bind_eq_ok.mp asked
  rw [taken]
  cases question with
  | none =>
      cases rest
      exact enterCapture_progress enabled _
  | some inside =>
      obtain ⟨first, next, rest⟩ := bind_eq_ok.mp rest
      cases first with
      | none => cases rest
      | some step =>
          obtain ⟨token, after⟩ := step
          exact readExtension_progress next enabled rest _

theorem skipComment_progress
    (asked : lexComment input = .ok (action, behind)) :
    ∃ next, reading.skipComment input = .ok next := by
  unfold lexComment at asked
  unfold skipComment
  obtain ⟨found, skipped, rest⟩ := bind_eq_ok.mp asked
  rw [skipped]
  cases found with
  | none => exact ⟨_, rfl⟩
  | some last => exact ⟨_, rfl⟩

theorem readPlain_progress
    {c : Char}
    (enabled : Enabled reading action)
    (asked : lexSign reading.flags c input = .ok (action, behind)) :
    ∃ next, reading.readPlain c input = .ok next := by
  by_cases sign : c ∈ ['(', '[', '.', '^', '$']
  · simp only [List.mem_cons, List.not_mem_nil, or_false] at sign
    rcases sign with rfl | rfl | rfl | rfl | rfl
    · exact readOpening_progress enabled asked
    · exact readClass_progress asked
    all_goals exact ⟨_, rfl⟩
  · rw [lexSign_other sign] at asked
    rw [readPlain_other sign]
    split
    · rename_i repeats
      rw [if_pos repeats] at asked
      exact readRepeat_progress enabled asked
    · exact ⟨_, rfl⟩

theorem readBar_progress
    (enabled : Enabled reading .bar)
    (place : Nat) :
    ∃ next, reading.readBar place input = .ok next := by
  unfold readBar
  split
  · rename_i index opener
    rw [enabled index opener]
    exact ⟨_, rfl⟩
  · exact ⟨_, rfl⟩

/-- A step that is asked for what can be done does not fail. -/
theorem step_progress
    {token : Token}
    (dropped : reading.input.drop token.width = .ok input)
    (asked : lex reading.flags token input = .ok (action, behind))
    (enabled : Enabled reading action) :
    ∃ next, reading.step token = .ok next := by
  unfold step
  unfold lex at asked
  dsimp only
  split at asked
  · cases asked
    obtain ⟨level, outer, opened⟩ := List.exists_cons_of_ne_nil enabled
    have inGroup : (decide (Token.plain ')' = .plain ')') && reading.outer.isEmpty) = false := by
      rw [opened]
      rfl
    rw [inGroup, dropped]
    refine ⟨reading.closeGroup input level outer, ?_⟩
    dsimp only [bind, Except.bind]
    unfold readClosing
    rw [opened]
    rfl
  · cases asked
    obtain ⟨next, done⟩ : ∃ next, reading.readBar reading.input.pos input = .ok next :=
      readBar_progress enabled reading.input.pos
    refine ⟨next, ?_⟩
    rw [dropped]
    cases opener : reading.level.opener with
    | branch index =>
        rw [enabled index opener]
        exact done
    | _ => exact done
  · obtain ⟨next, done⟩ := readEscape_progress enabled asked
    refine ⟨next, ?_⟩
    rw [dropped]
    exact done
  · rename_i c noClose noBar
    have noClosing : decide (Token.plain c = .plain ')') = false := by
      simpa using noClose
    have noBranch : decide (Token.plain c = .plain '|') = false := by
      simpa using noBar
    rw [noClosing, noBranch, dropped]
    unfold lexPlain at asked
    simp only [Bool.false_and, Bool.false_eq_true, if_false, bind, Except.bind]
    split at asked
    · rename_i layout
      rw [if_pos layout]
      exact ⟨_, rfl⟩
    · rename_i noLayout
      rw [if_neg noLayout]
      split at asked
      · rename_i comment
        rw [if_pos comment]
        exact skipComment_progress asked
      · rename_i noComment
        rw [if_neg noComment]
        exact readPlain_progress enabled asked

/-- A step that is asked for what can be done does it. -/
theorem step_acts
    {token : Token}
    (dropped : reading.input.drop token.width = .ok input)
    (asked : lex reading.flags token input = .ok (action, behind))
    (enabled : Enabled reading action) :
    ∃ next, reading.step token = .ok next ∧
      Acts reading reading.input.pos behind action next := by
  obtain ⟨next, stepped⟩ := step_progress dropped asked enabled
  obtain ⟨there, droppedThere, other, last, askedThere, acts⟩ := step_obeys stepped
  rw [dropped] at droppedThere
  cases droppedThere
  rw [asked] at askedThere
  cases askedThere
  exact ⟨next, stepped, acts⟩

end Reading

end NoticeScan.Regex
