import NoticeScan.Proofs.Frames
import NoticeScan.Proofs.Parts
import NoticeScan.Regex.Search

/-!
# Closed expressions

An expression is closed if it is well formed by itself and captures nothing. What reading it by
itself leads to is what it adds wherever it stands.
-/

namespace NoticeScan.Regex

/-! ## Reading takes text away -/

namespace Input

theorem peek?_isSome
    {input : Input}
    (some : input.rest ≠ []) :
    input.peek?.isSome = true := by
  unfold peek?
  split
  · rename_i none
    exact absurd none some
  · rfl
  · rfl

theorem length_takeUntilFrom
    {closing : Char}
    {what : String}
    {steps : Nat}
    {found name : List Char}
    {input behind : Input}
    (read : input.takeUntilFrom closing what steps found = .ok (name, behind)) :
    behind.rest.length ≤ input.rest.length := by
  induction steps generalizing found input with
  | zero =>
      cases read
      exact Nat.le_refl _
  | succ steps inductionHypothesis =>
      unfold takeUntilFrom at read
      cases next : input.next? with
      | error error =>
          rw [next] at read
          cases read
      | ok step =>
          rw [next] at read
          cases step with
          | none =>
              dsimp only at read
              split at read
              · cases read
              · cases read
          | some taken =>
              obtain ⟨token, after⟩ := taken
              have shorter := length_next? next
              dsimp only at read
              split at read
              · split at read
                · cases read
                · cases read
                  exact Nat.le_of_lt shorter
              · have rest := inductionHypothesis read
                omega

theorem length_takeUntil
    {closing : Char}
    {what : String}
    {name : List Char}
    {input behind : Input}
    (read : input.takeUntil closing what = .ok (name, behind)) :
    behind.rest.length ≤ input.rest.length :=
  length_takeUntilFrom read

end Input

theorem Reading.length_readName
    {closing : Char}
    {name : List Char}
    {input behind : Input}
    (read : Reading.readName input closing = .ok (name, behind)) :
    behind.rest.length ≤ input.rest.length := by
  unfold Reading.readName at read
  obtain ⟨⟨text, last⟩, taken, rest⟩ := bind_eq_ok.mp read
  dsimp only at rest
  split at rest
  · cases rest
    exact Input.length_takeUntil taken
  · cases rest

section Lengths

variable {flags : Flags} {input behind : Input} {action : Action}

theorem quiet_nil : Quiet [] :=
  ⟨by simp, by simp⟩

theorem length_lexNamed
    (read : lexNamed input = .ok (action, behind)) :
    behind.rest.length ≤ input.rest.length := by
  unfold lexNamed at read
  obtain ⟨taken, next, rest⟩ := bind_eq_ok.mp read
  split at rest
  · cases rest
  · obtain ⟨⟨name, inside⟩, named, rest⟩ := bind_eq_ok.mp rest
    cases rest
    have shorter := Input.length_next? next
    have shortest := Reading.length_readName named
    omega
  · obtain ⟨⟨name, inside⟩, named, rest⟩ := bind_eq_ok.mp rest
    cases rest
    have shorter := Input.length_next? next
    have shortest := Reading.length_readName named
    omega
  · cases rest

theorem length_lexExtension
    {token : Token}
    (takes : action.takesName = true)
    (read : lexExtension flags token input = .ok (action, behind)) :
    behind.rest.length ≤ input.rest.length := by
  unfold lexExtension at read
  split at read
  · exact length_lexNamed read
  · cases read
    cases takes
  · cases read
    cases takes
  · cases read
    cases takes
  · cases read
    cases takes
  · unfold lexBehind at read
    obtain ⟨taken, _, rest⟩ := bind_eq_ok.mp read
    split at rest
    · cases rest
    · cases rest
      cases takes
    · cases rest
      cases takes
    · cases rest
  · obtain ⟨⟨name, last⟩, taken, rest⟩ := bind_eq_ok.mp read
    cases rest
    exact Input.length_takeUntil taken
  · obtain ⟨found, _, rest⟩ := bind_eq_ok.mp read
    cases found with
    | none => cases rest
    | some last =>
        cases rest
        cases takes
  · split at read
    · unfold lexFlags at read
      obtain ⟨⟨list, last⟩, _, rest⟩ := bind_eq_ok.mp read
      rcases list with ⟨on⟩ | ⟨on, off⟩
      · cases rest
        cases takes
      · cases rest
        cases takes
    · cases read
  · cases read

theorem length_lexOpening
    (takes : action.takesName = true)
    (read : lexOpening flags input = .ok (action, behind)) :
    behind.rest.length ≤ input.rest.length := by
  unfold lexOpening at read
  obtain ⟨question, taken, rest⟩ := bind_eq_ok.mp read
  cases question with
  | none =>
      cases rest
      exact Nat.le_refl _
  | some inside =>
      have short := Input.length_take? taken
      obtain ⟨first, next, rest⟩ := bind_eq_ok.mp rest
      cases first with
      | none => cases rest
      | some step =>
          obtain ⟨token, after⟩ := step
          have shorter := Input.length_next? next
          have shortest := length_lexExtension takes rest
          omega

theorem lexBounds_nameless
    {low high : Nat}
    (read : lexBounds low high input = .ok (action, behind)) :
    action.takesName = false := by
  unfold lexBounds at read
  obtain ⟨⟨greed, last⟩, _, rest⟩ := bind_eq_ok.mp read
  cases rest
  rfl

theorem lexRepeat_nameless
    {c : Char}
    (read : lexRepeat flags c input = .ok (action, behind)) :
    action.takesName = false := by
  unfold lexRepeat at read
  split at read
  · exact lexBounds_nameless read
  · split at read
    · exact lexBounds_nameless read
    · split at read
      · exact lexBounds_nameless read
      · split at read
        · cases read
          rfl
        · obtain ⟨found, _, rest⟩ := bind_eq_ok.mp read
          cases found with
          | none =>
              cases rest
              rfl
          | some found => exact lexBounds_nameless rest

theorem length_lexSign
    {c : Char}
    (takes : action.takesName = true)
    (read : lexSign flags c input = .ok (action, behind)) :
    behind.rest.length ≤ input.rest.length := by
  unfold lexSign at read
  split at read
  · exact length_lexOpening takes read
  · unfold lexClass at read
    obtain ⟨⟨negated, members, last⟩, _, rest⟩ := bind_eq_ok.mp read
    cases rest
    cases takes
  · cases read
    cases takes
  · cases read
    cases takes
  · cases read
    cases takes
  · split at read
    · rw [lexRepeat_nameless read] at takes
      cases takes
    · cases read
      cases takes

theorem length_lex
    {token : Token}
    (sound : input.Sound)
    (read : lex flags token input = .ok (action, behind)) :
    behind.rest.length ≤ input.rest.length := by
  by_cases ended : behind.rest = []
  · rw [ended]
    exact Nat.zero_le _
  · cases takes : action.takesName with
    | false => exact (lex_onto 0 quiet_nil sound takes (fun _ _ => ended) read).2.1
    | true =>
        unfold lex at read
        split at read
        · cases read
          cases takes
        · cases read
          cases takes
        · unfold lexEscape at read
          obtain ⟨⟨escape, last⟩, _, rest⟩ := bind_eq_ok.mp read
          cases escape with
          | _ =>
              cases rest
              cases takes
        · unfold lexPlain at read
          split at read
          · cases read
            cases takes
          · split at read
            · rw [lexComment_skip read] at takes
              cases takes
            · exact length_lexSign takes read

end Lengths

namespace Reading

theorem length_step
    {reading next : Reading}
    {token : Token}
    (peeked : reading.input.peek? = some token)
    (stepped : reading.step token = .ok next) :
    next.input.rest.length < reading.input.rest.length := by
  obtain ⟨input, dropped, action, behind, asked, acts⟩ := step_obeys stepped
  have shorter := length_lex (Input.sound_of_drop dropped) asked
  have few := Input.width_le_of_peek? peeked
  have positive : 0 < token.width := by
    cases token <;> simp [Token.width]
  have rest := Input.drop_eq dropped
  rw [acts.input_eq]
  rw [rest] at shorter
  simp only [List.length_drop] at shorter
  omega

/-- A run with enough steps reads everything. -/
theorem rest_of_run
    {steps : Nat}
    {reading last : Reading}
    (enough : reading.input.rest.length < steps)
    (ran : run steps reading = .ok last) :
    last.input.rest = [] := by
  induction steps generalizing reading with
  | zero => omega
  | succ steps inductionHypothesis =>
      unfold run at ran
      cases peeked : reading.input.peek? with
      | none =>
          rw [peeked] at ran
          cases ran
          by_contra some
          have sees := Input.peek?_isSome some
          rw [peeked] at sees
          cases sees
      | some token =>
          rw [peeked] at ran
          dsimp only at ran
          cases stepped : reading.step token with
          | error error =>
              rw [stepped] at ran
              cases ran
          | ok next =>
              rw [stepped] at ran
              have shorter := length_step peeked stepped
              exact inductionHypothesis (by omega) ran

/-- What reading comes to in the end, a run with enough steps comes to. -/
theorem run_of_reaches
    {steps : Nat}
    {reading last : Reading}
    (enough : reading.input.rest.length < steps)
    (reaches : Reaches reading last)
    (atEnd : last.input.rest = []) :
    run steps reading = .ok last := by
  induction reaches generalizing steps with
  | refl =>
      obtain ⟨more, rfl⟩ : ∃ more, steps = more + 1 := ⟨steps - 1, by omega⟩
      unfold run Input.peek?
      rw [atEnd]
  | step peeked stepped _ inductionHypothesis =>
      obtain ⟨more, rfl⟩ : ∃ more, steps = more + 1 := ⟨steps - 1, by omega⟩
      have shorter := length_step peeked stepped
      unfold run
      rw [peeked]
      dsimp only
      rw [stepped]
      exact inductionHypothesis (by omega) atEnd

end Reading

/-! ## Items that are read -/

section Written

variable {flags : Flags}

theorem tidy_ofPoint
    (negated : Bool)
    (x : Nat) :
    (Item.ofPoint flags negated x).Tidy flags :=
  ⟨rfl, fun _ kind => by cases kind; exact ⟨rfl, rfl⟩⟩

theorem tidy_ofMembers
    (negated : Bool)
    (members : List Member) :
    (Item.ofMembers flags negated members).Tidy flags :=
  ⟨rfl, fun _ kind => by cases kind; exact ⟨rfl, rfl⟩⟩

theorem tidy_ofClass
    (negated : Bool)
    (members : List Member) :
    (Item.ofClass flags negated members).Tidy flags := by
  unfold Item.ofClass
  split
  · exact tidy_ofPoint negated _
  · exact tidy_ofMembers negated _

theorem tidy_ofAnchor
    {sign : Char}
    {anchor : Anchor}
    (written : anchor = placeAnchor flags sign) :
    (Item.ofAnchor sign anchor).Tidy flags :=
  ⟨rfl, fun _ kind => by cases kind; rw [written]; exact ⟨rfl, rfl⟩⟩

/-- An escape that is not one of a position. -/
def Escape.Unplaced (escape : Escape) : Prop :=
  ∀ letter, escape ≠ .anchor letter

theorem unplaced_octalEscape
    {digits : List Char}
    {escape : Escape}
    {input behind : Input}
    (read : octalEscape digits input = .ok (escape, behind)) :
    escape.Unplaced := by
  unfold octalEscape at read
  split at read
  · cases read
  · cases read
    exact fun _ => by simp

theorem unplaced_hexEscape
    {letter : Char}
    {width : Nat}
    {escape : Escape}
    {input behind : Input}
    (read : hexEscape letter width input = .ok (escape, behind)) :
    escape.Unplaced := by
  unfold hexEscape at read
  obtain ⟨⟨digits, last⟩, _, rest⟩ := bind_eq_ok.mp read
  dsimp only at rest
  split at rest
  · cases rest
  · split at rest
    · cases rest
    · cases rest
      exact fun _ => by simp

theorem unplaced_numberEscape
    {c : Char}
    {escape : Escape}
    {input behind : Input}
    (read : numberEscape c input = .ok (escape, behind)) :
    escape.Unplaced := by
  unfold numberEscape at read
  obtain ⟨⟨second, between⟩, _, rest⟩ := bind_eq_ok.mp read
  cases second with
  | nil =>
      cases rest
      exact fun _ => by simp
  | cons d others =>
      dsimp only at rest
      split at rest
      · obtain ⟨⟨third, last⟩, _, rest⟩ := bind_eq_ok.mp rest
        cases third with
        | nil =>
            cases rest
            exact fun _ => by simp
        | cons e more => exact unplaced_octalEscape rest
      · cases rest
        exact fun _ => by simp

theorem unplaced_category
    {c : Char}
    {escape : Escape}
    (known : category? c = some escape) :
    escape.Unplaced := by
  unfold category? at known
  split at known
  case h_7 => cases known
  all_goals
    cases known
    exact fun _ => by simp

theorem outerEscape_anchor
    {c letter : Char}
    {input behind : Input}
    (read : outerEscape c input = .ok (.anchor letter, behind)) :
    isAnchorLetter letter = true := by
  unfold outerEscape at read
  split at read
  · rename_i anchors
    cases read
    exact anchors
  · split at read
    · rename_i known
      cases read
      exact absurd rfl (unplaced_category known letter)
    · cases read
    · exact absurd rfl (unplaced_hexEscape read letter)
    · split at read
      · unfold namedEscape at read
        obtain ⟨taken, _, rest⟩ := bind_eq_ok.mp read
        cases taken with
        | none => cases rest
        | some inside =>
            obtain ⟨_, _, refused⟩ := bind_eq_ok.mp rest
            cases refused
      · split at read
        · obtain ⟨⟨more, last⟩, _, rest⟩ := bind_eq_ok.mp read
          exact absurd rfl (unplaced_octalEscape rest letter)
        · split at read
          · exact absurd rfl (unplaced_numberEscape read letter)
          · unfold selfEscape at read
            split at read
            · cases read
            · cases read

theorem escapedAnchor_eq
    {letter : Char}
    (anchors : isAnchorLetter letter = true) :
    Reading.escapedAnchor flags letter = placeAnchor flags letter := by
  unfold isAnchorLetter at anchors
  simp only [Bool.or_eq_true, beq_iff_eq] at anchors
  rcases anchors with ((rfl | rfl) | rfl) | rfl <;> rfl

theorem tidy_lexBounds
    {low high : Nat}
    {input behind : Input}
    {item : Item}
    (read : lexBounds low high input = .ok (.item item, behind)) :
    item.Tidy flags := by
  unfold lexBounds at read
  obtain ⟨⟨greed, last⟩, _, rest⟩ := bind_eq_ok.mp read
  cases rest

theorem tidy_lexRepeat
    {c : Char}
    {input behind : Input}
    {item : Item}
    (read : lexRepeat flags c input = .ok (.item item, behind)) :
    item.Tidy flags := by
  unfold lexRepeat at read
  split at read
  · exact tidy_lexBounds read
  · split at read
    · exact tidy_lexBounds read
    · split at read
      · exact tidy_lexBounds read
      · split at read
        · cases read
          exact tidy_ofPoint false _
        · obtain ⟨found, _, rest⟩ := bind_eq_ok.mp read
          cases found with
          | none =>
              cases rest
              exact tidy_ofPoint false _
          | some found => exact tidy_lexBounds rest

theorem lexNamed_noItem
    {input behind : Input}
    {item : Item} :
    lexNamed input ≠ .ok (.item item, behind) := by
  intro read
  have takes := lexNamed_takesName read
  cases takes

theorem lexExtension_noItem
    {token : Token}
    {input behind : Input}
    {item : Item} :
    lexExtension flags token input ≠ .ok (.item item, behind) := by
  intro read
  unfold lexExtension at read
  split at read
  · exact lexNamed_noItem read
  · cases read
  · cases read
  · cases read
  · cases read
  · unfold lexBehind at read
    obtain ⟨taken, _, rest⟩ := bind_eq_ok.mp read
    split at rest <;> cases rest
  · obtain ⟨⟨name, last⟩, _, rest⟩ := bind_eq_ok.mp read
    cases rest
  · obtain ⟨found, _, rest⟩ := bind_eq_ok.mp read
    cases found with
    | none => cases rest
    | some last => cases rest
  · split at read
    · unfold lexFlags at read
      obtain ⟨⟨list, last⟩, _, rest⟩ := bind_eq_ok.mp read
      rcases list with ⟨on⟩ | ⟨on, off⟩ <;> cases rest
    · cases read
  · cases read

theorem lexOpening_noItem
    {input behind : Input}
    {item : Item} :
    lexOpening flags input ≠ .ok (.item item, behind) := by
  intro read
  unfold lexOpening at read
  obtain ⟨question, _, rest⟩ := bind_eq_ok.mp read
  cases question with
  | none => cases rest
  | some inside =>
      obtain ⟨first, _, rest⟩ := bind_eq_ok.mp rest
      cases first with
      | none => cases rest
      | some step =>
          obtain ⟨token, after⟩ := step
          exact lexExtension_noItem rest

theorem tidy_lexSign
    {c : Char}
    {input behind : Input}
    {item : Item}
    (read : lexSign flags c input = .ok (.item item, behind)) :
    item.Tidy flags := by
  unfold lexSign at read
  split at read
  · exact absurd read lexOpening_noItem
  · unfold lexClass at read
    obtain ⟨⟨negated, members, last⟩, _, rest⟩ := bind_eq_ok.mp read
    cases rest
    exact tidy_ofClass negated members
  · cases read
    exact ⟨rfl, fun _ kind => by cases kind; exact ⟨rfl, rfl⟩⟩
  · cases read
    exact tidy_ofAnchor (by simp [placeAnchor])
  · cases read
    exact tidy_ofAnchor (by simp [placeAnchor])
  · split at read
    · exact tidy_lexRepeat read
    · cases read
      exact tidy_ofPoint false _

/-- An item that the text asks for is what is written there. -/
theorem tidy_lex
    {token : Token}
    {input behind : Input}
    {item : Item}
    (read : lex flags token input = .ok (.item item, behind)) :
    item.Tidy flags := by
  unfold lex at read
  split at read
  · cases read
  · cases read
  · unfold lexEscape at read
    obtain ⟨⟨escape, last⟩, escaped, rest⟩ := bind_eq_ok.mp read
    cases escape with
    | point x =>
        cases rest
        exact tidy_ofPoint false x
    | category kind negated =>
        cases rest
        exact tidy_ofMembers false _
    | anchor letter =>
        cases rest
        exact tidy_ofAnchor (escapedAnchor_eq (outerEscape_anchor escaped))
    | group index => cases rest
  · unfold lexPlain at read
    split at read
    · cases read
    · split at read
      · cases lexComment_skip read
      · exact tidy_lexSign read

end Written

/-! ## Readings without groups -/

/-- The items of a group that is open are tidy. -/
def Level.Tidy (level : Level) : Prop :=
  (∀ entry ∈ level.entries, ∀ item ∈ entry.items, item.Tidy level.flags) ∧
    TidyBranches level.flags level.branches

/-- A group that only holds items together has the flags of the group around it. -/
def Nested : Level → List Level → Prop
  | _, [] => True
  | level, next :: rest => (level.opener = .plain → level.flags = next.flags) ∧ Nested next rest

/-- A reading that has met no group and remembers where it looks behind. -/
structure Lone (reading : Reading) : Prop where
  groups : reading.groups = {}
  mentioned : reading.mentioned = []
  noCapture : ∀ level ∈ reading.level :: reading.outer, ∀ index, level.opener ≠ .capture index
  tidy : ∀ level ∈ reading.level :: reading.outer, level.Tidy
  nested : Nested reading.level reading.outer
  looks : reading.lookbehindFrom.isSome = true →
    ∃ level ∈ reading.level :: reading.outer, ∃ negated, level.opener = .look true negated true

theorem Nested.replace
    {level other : Level}
    {outer : List Level}
    (nested : Nested level outer)
    (sameOpener : other.opener = level.opener)
    (sameFlags : other.flags = level.flags) :
    Nested other outer := by
  cases outer with
  | nil => trivial
  | cons next rest =>
      refine ⟨?_, nested.2⟩
      rw [sameOpener, sameFlags]
      exact nested.1

theorem Level.Tidy.sequence
    {level : Level}
    (tidy : level.Tidy) :
    ∀ item ∈ Reading.sequence level, item.Tidy level.flags := by
  intro item member
  obtain ⟨entry, among, inside⟩ := List.mem_flatMap.mp member
  exact tidy.1 entry (List.mem_reverse.mp among) item inside

theorem Level.Tidy.branches
    {level : Level}
    (tidy : level.Tidy) :
    TidyBranches level.flags (Reading.branches level) := by
  intro items member
  rcases List.mem_cons.mp (List.mem_reverse.mp member) with rfl | earlier
  · exact tidy.sequence
  · exact tidy.2 items earlier

theorem Item.Tidy.of_other
    {flags : Flags}
    {item : Item}
    (bare : item.node.bare = true)
    (other : ∀ leaf, item.kind ≠ .leaf leaf) :
    item.Tidy flags :=
  ⟨bare, fun leaf kind => absurd kind (other leaf)⟩

theorem mem_of_mem_headD
    {branches : List (List Item)}
    {item : Item}
    (inside : item ∈ branches.headD []) :
    branches.headD [] ∈ branches := by
  cases branches with
  | nil => cases inside
  | cons items rest => exact List.mem_cons_self

theorem repeatable_ofItems
    {entry : Entry}
    {place : Nat}
    {body : Part}
    (repeatable : entry.repeatable place = .ok body) :
    body = .ofItems entry.items := by
  cases entry with
  | bundle items => exact (Except.ok.inj repeatable).symm
  | single item =>
      unfold Entry.repeatable at repeatable
      cases kind : item.kind with
      | leaf leaf =>
          dsimp only at repeatable
          rw [kind] at repeatable
          cases leaf with
          | place sign => cases repeatable
          | _ => exact (Except.ok.inj repeatable).symm
      | repeated =>
          dsimp only at repeatable
          rw [kind] at repeatable
          cases repeatable
      | other =>
          dsimp only at repeatable
          rw [kind] at repeatable
          exact (Except.ok.inj repeatable).symm

/-- A group that is closed is tidy in the group around it. -/
theorem tidy_closedEntry
    {level : Level}
    (tidy : level.Tidy)
    (noCapture : ∀ index, level.opener ≠ .capture index)
    {flags : Flags}
    (sameFlags : level.opener = .plain → level.flags = flags) :
    ∀ item ∈ (Reading.closedEntry level).items, item.Tidy flags := by
  have branches := tidy.branches
  have items := tidy_alternatives branches
  have bare : (Part.ofItems (alternatives level.flags (Reading.branches level))).node.bare =
      true :=
    (bare_ofItems _).mpr fun item member => (items item member).bare
  intro item member
  unfold Reading.closedEntry at member
  cases kind : level.opener with
  | plain =>
      rw [kind] at member
      rw [← sameFlags kind]
      exact items item member
  | capture index => exact absurd kind (noCapture index)
  | whole =>
      rw [kind] at member
      cases List.mem_singleton.mp member
      exact .of_other bare fun _ => by simp [Item.scoped]
  | flagged =>
      rw [kind] at member
      cases List.mem_singleton.mp member
      exact .of_other bare fun _ => by simp [Item.scoped]
  | atomic =>
      rw [kind] at member
      cases List.mem_singleton.mp member
      exact .of_other bare fun _ => by simp [Item.atomic]
  | look behind negated outermost =>
      rw [kind] at member
      cases List.mem_singleton.mp member
      split
      · exact ⟨rfl, fun _ leaf => by cases leaf; exact ⟨rfl, rfl⟩⟩
      · exact .of_other bare fun _ => by simp [Item.looking]
  | branch index =>
      rw [kind] at member
      cases List.mem_singleton.mp member
      have each : ∀ items, (∀ item ∈ items, ∃ branch ∈ Reading.branches level, item ∈ branch) →
          (Part.ofItems items).node.bare = true := by
        intro items among
        apply (bare_ofItems _).mpr
        intro item inside
        obtain ⟨branch, listed, within⟩ := among item inside
        exact (branches branch listed item within).bare
      have first := each ((Reading.branches level).headD []) fun item inside =>
        ⟨_, mem_of_mem_headD inside, inside⟩
      have second := each ((Reading.branches level).tail.headD []) fun item inside =>
        ⟨_, List.mem_of_mem_tail (mem_of_mem_headD inside), inside⟩
      refine .of_other ?_ fun _ => by simp [Item.branching]
      exact Bool.and_eq_true_iff.mpr ⟨first, second⟩

theorem tidy_repeating
    {entry : Entry}
    {place : Nat}
    {body : Part}
    {flags outer : Flags}
    (tidy : ∀ item ∈ entry.items, item.Tidy outer)
    (repeatable : entry.repeatable place = .ok body)
    (greed : Greed)
    (low high : Nat) :
    (Item.repeating flags greed low high body).Tidy outer := by
  refine .of_other ?_ fun _ => by simp [Item.repeating]
  have bare : (Part.ofItems entry.items).node.bare = true :=
    (bare_ofItems _).mpr fun item member => (tidy item member).bare
  have same := repeatable_ofItems repeatable
  rw [same]
  exact bare

namespace Lone

variable {reading : Reading}

/-- The innermost open group goes on. -/
theorem goOn
    (lone : Lone reading)
    (input : Input)
    {level : Level}
    (sameOpener : level.opener = reading.level.opener)
    (sameFlags : level.flags = reading.level.flags)
    (tidy : level.Tidy) :
    Lone { reading with input := input, level := level } where
  groups := lone.groups
  mentioned := lone.mentioned
  noCapture := by
    intro other member
    rcases List.mem_cons.mp member with rfl | outer
    · rw [sameOpener]
      exact lone.noCapture _ List.mem_cons_self
    · exact lone.noCapture other (List.mem_cons_of_mem _ outer)
  tidy := by
    intro other member
    rcases List.mem_cons.mp member with rfl | outer
    · exact tidy
    · exact lone.tidy other (List.mem_cons_of_mem _ outer)
  nested := lone.nested.replace sameOpener sameFlags
  looks := by
    intro looking
    obtain ⟨other, member, negated, opener⟩ := lone.looks looking
    rcases List.mem_cons.mp member with rfl | outer
    · exact ⟨level, List.mem_cons_self, negated, sameOpener.trans opener⟩
    · exact ⟨other, List.mem_cons_of_mem _ outer, negated, opener⟩

theorem tidy_add
    (lone : Lone reading)
    {entry : Entry}
    (tidy : ∀ item ∈ entry.items, item.Tidy reading.flags) :
    Level.Tidy { reading.level with entries := entry :: reading.level.entries } := by
  have known := lone.tidy reading.level List.mem_cons_self
  refine ⟨?_, known.2⟩
  intro other member
  rcases List.mem_cons.mp member with rfl | earlier
  · exact tidy
  · exact known.1 other earlier

theorem setFlags
    (lone : Lone reading)
    (input : Input)
    (on : List InlineFlag)
    (whole : reading.level.opener = .whole)
    (noBranches : reading.level.branches = [])
    (noEntries : reading.level.entries = []) :
    Lone
      { reading with
        input := input
        level := { reading.level with flags := reading.level.flags.change on [] }
        everywhere := on ++ reading.everywhere } where
  groups := lone.groups
  mentioned := lone.mentioned
  noCapture := by
    intro other member
    rcases List.mem_cons.mp member with rfl | outer
    · exact lone.noCapture reading.level List.mem_cons_self
    · exact lone.noCapture other (List.mem_cons_of_mem _ outer)
  tidy := by
    intro other member
    rcases List.mem_cons.mp member with rfl | outer
    · refine ⟨?_, ?_⟩
      · rw [noEntries]
        exact fun _ none => absurd none List.not_mem_nil
      · rw [noBranches]
        exact fun _ none => absurd none List.not_mem_nil
    · exact lone.tidy other (List.mem_cons_of_mem _ outer)
  nested := by
    have nested := lone.nested
    cases outer : reading.outer with
    | nil => trivial
    | cons next rest =>
        rw [outer] at nested
        refine ⟨?_, nested.2⟩
        intro plain
        rw [whole] at plain
        cases plain
  looks := by
    intro looking
    obtain ⟨other, member, negated, opener⟩ := lone.looks looking
    rcases List.mem_cons.mp member with rfl | outer
    · exact ⟨_, List.mem_cons_self, negated, opener⟩
    · exact ⟨other, List.mem_cons_of_mem _ outer, negated, opener⟩

theorem enter
    (lone : Lone reading)
    (input : Input)
    {opener : Opener}
    (noCapture : ∀ index, opener ≠ .capture index)
    (start : Nat)
    {flags : Flags}
    (sameFlags : opener = .plain → flags = reading.flags) :
    Lone (reading.enter input opener start flags) where
  groups := lone.groups
  mentioned := lone.mentioned
  noCapture := by
    intro other member
    rcases List.mem_cons.mp member with rfl | outer
    · exact noCapture
    · exact lone.noCapture other outer
  tidy := by
    intro other member
    rcases List.mem_cons.mp member with rfl | outer
    · exact ⟨fun _ none => absurd none List.not_mem_nil,
        fun _ none => absurd none List.not_mem_nil⟩
    · exact lone.tidy other outer
  nested := ⟨sameFlags, lone.nested⟩
  looks := by
    intro looking
    obtain ⟨other, member, negated, isLook⟩ := lone.looks looking
    exact ⟨other, List.mem_cons_of_mem _ member, negated, isLook⟩

theorem enterLook
    (lone : Lone reading)
    (input : Input)
    (start : Nat)
    (behind negated : Bool) :
    Lone (reading.enterLook input start behind negated) := by
  have entered : Lone (reading.enter input
      (.look behind negated reading.lookbehindFrom.isNone) start reading.flags) :=
    lone.enter input (by simp) start (by simp)
  refine ⟨entered.groups, entered.mentioned, entered.noCapture, entered.tidy, entered.nested, ?_⟩
  intro looking
  unfold Reading.enterLook at looking ⊢
  dsimp only [Reading.enter] at looking ⊢
  by_cases outermost : (behind && reading.lookbehindFrom.isNone) = true
  · obtain ⟨isBehind, none⟩ := Bool.and_eq_true_iff.mp outermost
    subst isBehind
    rw [none]
    exact ⟨_, List.mem_cons_self, negated, rfl⟩
  · rw [if_neg outermost] at looking
    obtain ⟨other, member, otherNegated, isLook⟩ := lone.looks looking
    exact ⟨other, List.mem_cons_of_mem _ member, otherNegated, isLook⟩

theorem closeGroup
    (lone : Lone reading)
    (input : Input)
    {level : Level}
    {outer : List Level}
    (opened : reading.outer = level :: outer) :
    Lone (reading.closeGroup input level outer) := by
  have inner := lone.noCapture reading.level List.mem_cons_self
  have nested := lone.nested
  rw [opened] at nested
  have levelIn : level ∈ reading.level :: reading.outer := by
    rw [opened]
    exact List.mem_cons_of_mem _ List.mem_cons_self
  have outerIn : ∀ other ∈ outer, other ∈ reading.level :: reading.outer := by
    intro other member
    rw [opened]
    exact List.mem_cons_of_mem _ (List.mem_cons_of_mem _ member)
  have closed := tidy_closedEntry (lone.tidy reading.level List.mem_cons_self) inner nested.1
  have levelTidy := lone.tidy level levelIn
  have sameGroups : (reading.closeGroup input level outer).groups = reading.groups := by
    unfold Reading.closeGroup Reading.add
    dsimp only
    split
    · rename_i index captures
      exact absurd captures (inner index)
    · rfl
  refine ⟨sameGroups.trans lone.groups, lone.mentioned, ?_, ?_, ?_, ?_⟩
  · intro other member
    rcases List.mem_cons.mp member with rfl | further
    · exact lone.noCapture level levelIn
    · exact lone.noCapture other (outerIn other further)
  · intro other member
    rcases List.mem_cons.mp member with rfl | further
    · refine ⟨?_, levelTidy.2⟩
      intro entry among
      rcases List.mem_cons.mp among with rfl | earlier
      · exact closed
      · exact levelTidy.1 entry earlier
    · exact lone.tidy other (outerIn other further)
  · exact nested.2.replace rfl rfl
  · intro looking
    have before : reading.lookbehindFrom.isSome = true ∧
        ∀ negated, reading.level.opener ≠ .look true negated true := by
      unfold Reading.closeGroup Reading.add at looking
      dsimp only at looking
      split at looking
      · cases looking
      · rename_i other
        exact ⟨looking, fun negated same => other negated same⟩
    obtain ⟨other, member, negated, isLook⟩ := lone.looks before.1
    rcases List.mem_cons.mp member with rfl | further
    · exact absurd isLook (before.2 negated)
    · rw [opened] at further
      rcases List.mem_cons.mp further with rfl | furthest
      · exact ⟨_, List.mem_cons_self, negated, isLook⟩
      · exact ⟨other, List.mem_cons_of_mem _ furthest, negated, isLook⟩

/-- Outside all groups, nothing looks behind. -/
theorem lookbehindFrom_eq
    (lone : Lone reading)
    (closed : reading.outer = [])
    (whole : reading.level.opener = .whole) :
    reading.lookbehindFrom = none := by
  cases looking : reading.lookbehindFrom with
  | none => rfl
  | some first =>
      obtain ⟨level, member, negated, opener⟩ := lone.looks (by rw [looking]; rfl)
      rw [closed] at member
      cases List.mem_singleton.mp member
      rw [whole] at opener
      cases opener

end Lone

/-- What is done to a reading without groups leaves it so, unless a group is met. -/
theorem Acts.lone
    {reading next : Reading}
    {mark : Nat}
    {behind : Input}
    {action : Action}
    (lone : Lone reading)
    (groupless : Groupless next)
    (written : ∀ item, action = .item item → item.Tidy reading.flags)
    (acts : Acts reading mark behind action next) :
    Lone next := by
  have levelTidy := lone.tidy reading.level List.mem_cons_self
  cases acts with
  | skip => exact lone.goOn behind rfl rfl levelTidy
  | item item =>
      refine lone.goOn behind rfl rfl (lone.tidy_add ?_)
      intro other member
      cases List.mem_singleton.mp member
      exact written item rfl
  | repeating low high greed entry before place body entries repeatable =>
      refine lone.goOn behind rfl rfl ⟨?_, levelTidy.2⟩
      have known := levelTidy.1
      rw [entries] at known
      intro other member
      rcases List.mem_cons.mp member with rfl | earlier
      · intro item inside
        cases List.mem_singleton.mp inside
        exact tidy_repeating (known entry List.mem_cons_self) repeatable greed low high
      · exact known other (List.mem_cons_of_mem _ earlier)
  | opening opener flags kind sameFlags =>
      refine lone.enter behind ?_ mark sameFlags
      intro index
      rcases kind with rfl | rfl | rfl <;> simp
  | capture name next entered =>
      have more := widths_of_enterCapture entered
      rw [lone.groups, groupless.widths] at more
      simp at more
  | look isBehind negated => exact lone.enterLook behind mark isBehind negated
  | numbered index width next read => exact absurd read (pushNumbered_of_groups lone.groups)
  | named name index next known read =>
      rw [lone.groups] at known
      cases known
  | branch name place index mentioned found =>
      exact absurd groupless.mentioned
        (mentioned_of_branchIndex lone.groups lone.mentioned found)
  | everywhere on some whole noBranches noEntries =>
      exact lone.setFlags behind on whole noBranches noEntries
  | bar first =>
      refine lone.goOn behind rfl rfl ⟨fun _ none => absurd none List.not_mem_nil, ?_⟩
      intro items member
      rcases List.mem_cons.mp member with rfl | earlier
      · exact levelTidy.sequence
      · exact levelTidy.2 items earlier
  | close level outer opened => exact lone.closeGroup behind opened

/-! ## Reading an expression by itself -/

namespace Reading

/-- The start of reading an expression. -/
def start (flags : Flags) (source : List Char) : Reading where
  input := ⟨source, 0⟩
  level := { opener := .whole, start := 0, flags := flags }

theorem lone_start
    (flags : Flags)
    (source : List Char) :
    Lone (start flags source) where
  groups := rfl
  mentioned := rfl
  noCapture := by
    intro level member index
    cases List.mem_singleton.mp member
    simp [start]
  tidy := by
    intro level member
    cases List.mem_singleton.mp member
    exact ⟨fun _ none => absurd none List.not_mem_nil,
      fun _ none => absurd none List.not_mem_nil⟩
  nested := trivial
  looks := by simp [start]

theorem Reaches.lone
    {reading final : Reading}
    (reaches : Reaches reading final)
    (lone : Lone reading)
    (groupless : Groupless final) :
    Lone final := by
  induction reaches with
  | refl => exact lone
  | step peeked stepped rest inductionHypothesis =>
      obtain ⟨input, _, action, behind, asked, acts⟩ := step_obeys stepped
      have nextGroupless := rest.groupless_next groupless lone.groups acts
      refine inductionHypothesis (acts.lone lone nextGroupless ?_) groupless
      rintro item rfl
      exact tidy_lex asked

end Reading

/-- What is read of an expression by itself, as items. -/
def Reading.items (reading : Reading) : List Item :=
  alternatives reading.level.flags (branches reading.level)

/-- Reading an expression by itself ends well, with no group open and none met. -/
structure Ended (flags : Flags) (source : List Char) (final : Reading) : Prop where
  sound : source ≠ ['\\']
  reaches : Reading.Reaches (Reading.start flags source) final
  atEnd : final.input.rest = []
  outer : final.outer = []
  groupless : Groupless final
  late : (Part.ofItems final.items).late = none

/-- An expression is closed if reading it by itself ends well and it sets no flags for a whole
expression. -/
structure Closed (flags : Flags) (source : List Char) (final : Reading) : Prop extends
    Ended flags source final where
  everywhere : final.everywhere = []

theorem Reading.alone_start
    (flags : Flags)
    (source : List Char) :
    Alone flags (start flags source) :=
  ⟨⟨rfl, rfl⟩, rfl, rfl⟩

namespace Ended

variable {flags : Flags} {source : List Char} {final : Reading}

theorem lone
    (ended : Ended flags source final) :
    Lone final :=
  ended.reaches.lone (Reading.lone_start flags source) ended.groupless

theorem lookbehindFrom
    (ended : Ended flags source final)
    (whole : final.level.opener = .whole) :
    final.lookbehindFrom = none :=
  ended.lone.lookbehindFrom_eq ended.outer whole

theorem tidy
    (ended : Ended flags source final) :
    TidyBranches final.level.flags (Reading.branches final.level) :=
  (ended.lone.tidy final.level List.mem_cons_self).branches

theorem branches_late
    (ended : Ended flags source final) :
    ∀ items ∈ Reading.branches final.level, ∀ item ∈ items, item.late = none :=
  (late_alternatives ended.tidy.written).mp ((late_ofItems _).mp ended.late)

end Ended

/-- The numbers that choices have mentioned are numbers of groups. -/
def Counted (reading : Reading) : Prop :=
  0 < reading.groups.widths.size ∧ ∀ mention ∈ reading.mentioned, 0 < mention.1

theorem Acts.counted
    {reading next : Reading}
    {mark : Nat}
    {behind : Input}
    {action : Action}
    (counted : Counted reading)
    (acts : Acts reading mark behind action next) :
    Counted next := by
  refine ⟨Nat.lt_of_lt_of_le counted.1 acts.grows.1, ?_⟩
  cases acts with
  | capture name next entered =>
      obtain ⟨groups, -, rfl⟩ := Reading.enterCapture_eq entered
      exact counted.2
  | numbered index width next read =>
      obtain ⟨item, rfl⟩ := Reading.pushNumbered_eq read
      exact counted.2
  | named name index next known read =>
      obtain ⟨item, rfl⟩ := Reading.pushAgain_eq read
      exact counted.2
  | branch name place index mentioned found =>
      rcases Reading.branchIndex_eq found with rfl | ⟨positive, rfl⟩
      · exact counted.2
      · intro mention member
        rcases List.mem_append.mp member with earlier | last
        · exact counted.2 mention earlier
        · cases List.mem_singleton.mp last
          exact Nat.pos_of_ne_zero positive
  | _ => exact counted.2

theorem Reading.Reaches.counted
    {reading final : Reading}
    (reaches : Reaches reading final)
    (counted : Counted reading) :
    Counted final := by
  induction reaches with
  | refl => exact counted
  | step _ stepped _ inductionHypothesis =>
      obtain ⟨input, _, action, behind, _, acts⟩ := step_obeys stepped
      exact inductionHypothesis (acts.counted counted)

/-- Reading an expression without groups ends well. -/
theorem ended_of_compile
    {flags : Flags}
    {source : List Char}
    {regex : Regex}
    (compiled : Regex.compile flags source = .ok regex)
    (none : regex.groupCount = 0) :
    ∃ final, Ended flags source final ∧ regex.node = (Part.ofItems final.items).node := by
  unfold Regex.compile at compiled
  obtain ⟨input, checked, compiled⟩ := bind_eq_ok.mp compiled
  obtain ⟨final, ran, compiled⟩ := bind_eq_ok.mp compiled
  obtain ⟨items, finished, compiled⟩ := bind_eq_ok.mp compiled
  cases compiled
  unfold Input.checked at checked
  split at checked
  · cases checked
  · rename_i sound
    cases checked
    have reaches : Reading.Reaches (Reading.start flags source) final :=
      Reading.reaches_of_run ran
    have counted : Counted final :=
      reaches.counted ⟨by simp [Reading.start], by simp [Reading.start]⟩
    have one : final.groups.widths.size = 1 := by
      have positive := counted.1
      dsimp only at none
      omega
    unfold Reading.finish at finished
    cases outer : final.outer with
    | cons level rest =>
        rw [outer] at finished
        cases finished
    | nil =>
        rw [outer] at finished
        obtain ⟨_, _, finished⟩ := bind_eq_ok.mp finished
        obtain ⟨_, known, finished⟩ := bind_eq_ok.mp finished
        have mentioned : final.mentioned = [] := by
          unfold Reading.checkMentioned at known
          split at known
          · cases known
          · rename_i unknown
            rw [List.find?_eq_none] at unknown
            by_contra some
            obtain ⟨mention, member⟩ := List.exists_mem_of_ne_nil _ some
            have few := unknown mention member
            have positive := counted.2 mention member
            rw [one, decide_eq_true_eq] at few
            omega
        dsimp only at finished
        split at finished
        · cases finished
        · rename_i late
          cases finished
          have atEnd := Reading.rest_of_run (Nat.lt_succ_self _) ran
          exact ⟨final, ⟨sound, reaches, atEnd, outer, ⟨one, mentioned⟩, late⟩, rfl⟩

/-- The reading of a closed expression by itself. -/
def ending? (flags : Flags) (source : List Char) : Option Reading :=
  match Reading.run (source.length + 1) (Reading.start flags source) with
  | .ok final =>
      if source ≠ ['\\'] ∧ final.outer = [] ∧ final.groups.widths.size = 1 ∧
          final.mentioned = [] ∧ final.everywhere = [] ∧
          (Part.ofItems final.items).late = none then
        some final
      else
        none
  | .error _ => none

theorem closed_of_ending?
    {flags : Flags}
    {source : List Char}
    {final : Reading}
    (ends : ending? flags source = some final) :
    Closed flags source final := by
  unfold ending? at ends
  split at ends
  · rename_i last ran
    split at ends
    · rename_i fine
      cases ends
      obtain ⟨sound, outer, widths, mentioned, everywhere, late⟩ := fine
      have atEnd := Reading.rest_of_run (Nat.lt_succ_self _) ran
      exact ⟨⟨sound, Reading.reaches_of_run ran, atEnd, outer, ⟨widths, mentioned⟩, late⟩,
        everywhere⟩
    · cases ends
  · cases ends

end NoticeScan.Regex
