import Mathlib
import NoticeScan.Regex.Search

/-!
# Reading without regard to case

Whether letters are told apart by case decides which tests an expression is made of, and nothing
else. Two readings that agree up to these tests stay in step, fail in the same way and meet the
same groups.
-/

namespace NoticeScan.Regex

/-! ## What is left without the tests -/

/-- Flags with case told apart. -/
def Flags.caseless (flags : Flags) : Flags :=
  { flags with ignoreCase := false }

/-- An item without its tree, of which the kind, the width and the fault are left. -/
def Item.caseless (item : Item) : Item :=
  { item with node := .empty, opening := none }

def Entry.caseless : Entry → Entry
  | .single item => .single item.caseless
  | .bundle items => .bundle (items.map Item.caseless)

def Level.caseless (level : Level) : Level :=
  { level with
    flags := level.flags.caseless
    branches := level.branches.map (·.map Item.caseless)
    entries := level.entries.map Entry.caseless }

def Reading.caseless (reading : Reading) : Reading :=
  { reading with
    level := reading.level.caseless
    outer := reading.outer.map Level.caseless }

/-- Two readings that differ in their tests only. -/
def Reading.Alike (first second : Reading) : Prop :=
  first.caseless = second.caseless

/-! ## Items -/

section Items

variable {items others : List Item} {branches : List (List Item)}

@[simp]
theorem Flags.caseless_caseless (flags : Flags) :
    flags.caseless.caseless = flags.caseless :=
  rfl

@[simp]
theorem Item.caseless_caseless (item : Item) :
    item.caseless.caseless = item.caseless :=
  rfl

@[simp]
theorem Entry.caseless_caseless (entry : Entry) :
    entry.caseless.caseless = entry.caseless := by
  cases entry with
  | single item => rfl
  | bundle items => simp [Entry.caseless]

theorem ofClass_caseless
    (flags inner : Flags)
    (negated : Bool)
    (members : List Member) :
    (Item.ofClass flags negated members).caseless =
      (Item.ofClass inner negated members).caseless := by
  rw [Item.ofClass, Item.ofClass]
  generalize members.eraseDups = distinct
  rcases distinct with _ | ⟨_ | _ | _, _ | _⟩ <;> rfl

theorem width_ofItems
    (same : items.map Item.caseless = others.map Item.caseless) :
    (Part.ofItems items).width = (Part.ofItems others).width := by
  have widths := congrArg (List.map fun item : Item => item.width) same
  rw [List.map_map, List.map_map] at widths
  rw [Part.ofItems, Part.ofItems, Part.sequence, Part.sequence]
  dsimp only
  rw [List.map_map, List.map_map]
  exact congrArg (fun widths => (widths.foldl Width.add ⟨0, 0⟩).capped) widths

theorem late_ofItems_eq
    (same : items.map Item.caseless = others.map Item.caseless) :
    (Part.ofItems items).late = (Part.ofItems others).late := by
  have faults := congrArg (List.map fun item : Item => item.late) same
  rw [List.map_map, List.map_map] at faults
  rw [Part.ofItems, Part.ofItems, Part.sequence, Part.sequence]
  dsimp only
  rw [List.map_map, List.map_map]
  exact congrArg (fun faults => faults.foldl firstFault none) faults

theorem map_caseless_map (items : List Item) :
    (items.map Item.caseless).map Item.caseless = items.map Item.caseless := by
  simp

theorem startsAlike_caseless
    (item : Item)
    (items : List Item) :
    startsAlike item.caseless (items.map Item.caseless) = startsAlike item items := by
  cases items <;> rfl

theorem splitShared_caseless
    (first : List Item)
    (others : List (List Item)) :
    splitShared (first.map Item.caseless) (others.map (·.map Item.caseless)) =
      ((splitShared first others).1.map Item.caseless,
        (splitShared first others).2.map (·.map Item.caseless)) := by
  induction first generalizing others with
  | nil => rfl
  | cons item rest inductionHypothesis =>
      have alike : (others.map (·.map Item.caseless)).all (startsAlike item.caseless) =
          others.all (startsAlike item) := by
        rw [List.all_map]
        exact congrArg others.all (funext (startsAlike_caseless item))
      have tails : (others.map (·.map Item.caseless)).map List.tail =
          (others.map List.tail).map (·.map Item.caseless) := by
        rw [List.map_map, List.map_map]
        exact congrArg (List.map · others) (funext fun items => List.map_tail.symm)
      rw [List.map_cons, splitShared, splitShared, alike]
      by_cases shared : others.all (startsAlike item) = true
      · rw [if_pos shared, if_pos shared, tails, inductionHypothesis]
        rfl
      · rw [if_neg shared, if_neg shared]
        rfl

theorem membersOf_caseless (branches : List (List Item)) :
    membersOf (branches.map (·.map Item.caseless)) = membersOf branches := by
  induction branches with
  | nil => rfl
  | cons items rest inductionHypothesis =>
      match items with
      | [] => rfl
      | [item] =>
          rw [List.map_cons, List.map_singleton, membersOf, membersOf, inductionHypothesis]
          rfl
      | first :: second :: more => rfl

theorem choice_caseless
    (flags : Flags)
    (branches : List (List Item)) :
    (Item.choice flags.caseless (branches.map (·.map Item.caseless))).caseless =
      (Item.choice flags branches).caseless := by
  rw [Item.choice, Item.choice, membersOf_caseless]
  cases membersOf branches with
  | some members => rfl
  | none =>
      have width (items : List Item) :=
        width_ofItems (map_caseless_map items)
      have late (items : List Item) :=
        late_ofItems_eq (map_caseless_map items)
      simp only [Item.caseless, Part.choice, List.map_map, Function.comp_def] at width late ⊢
      simp only [width, late]

theorem alternatives_caseless
    (flags : Flags)
    (branches : List (List Item)) :
    (alternatives flags.caseless (branches.map (·.map Item.caseless))).map Item.caseless =
      (alternatives flags branches).map Item.caseless := by
  match branches with
  | [] => rfl
  | [items] => exact map_caseless_map items
  | first :: second :: others =>
      have parts := splitShared_caseless first (second :: others)
      have choice := choice_caseless flags (splitShared first (second :: others)).2
      have whole (flags : Flags) (first second : List Item) (others : List (List Item)) :
          alternatives flags (first :: second :: others) =
            (splitShared first (second :: others)).1 ++
              [.choice flags (splitShared first (second :: others)).2] := rfl
      rw [List.map_cons] at parts
      rw [List.map_cons, List.map_cons, whole, whole, parts, List.map_append, List.map_append,
        map_caseless_map, List.map_singleton, List.map_singleton, choice]

end Items

/-! ## Outcomes that agree -/

/-- Two outcomes that agree: values that do, or one error. -/
inductive Agree {α : Type} (like : α → α → Prop) : Except Error α → Except Error α → Prop where
  | ok {first second : α} : like first second → Agree like (.ok first) (.ok second)
  | error (error : Error) : Agree like (.error error) (.error error)

namespace Agree

variable {α β : Type} {like : α → α → Prop} {near : β → β → Prop}

theorem bind
    {first second : Except Error β}
    {one other : β → Except Error α}
    (agree : Agree near first second)
    (each : ∀ a b, near a b → Agree like (one a) (other b)) :
    Agree like (first >>= one) (second >>= other) := by
  cases agree with
  | ok close => exact each _ _ close
  | error error => exact .error error

theorem bind_same
    {one other : β → Except Error α}
    (source : Except Error β)
    (each : ∀ a, Agree like (one a) (other a)) :
    Agree like (source >>= one) (source >>= other) := by
  cases source with
  | ok value => exact each value
  | error error => exact .error error

theorem symm
    {first second : Except Error α}
    (turn : ∀ a b, like a b → like b a)
    (agree : Agree like first second) :
    Agree like second first := by
  cases agree with
  | ok close => exact .ok (turn _ _ close)
  | error error => exact .error error

theorem trans
    {first second third : Except Error α}
    (chain : ∀ a b c, like a b → like b c → like a c)
    (one : Agree like first second)
    (other : Agree like second third) :
    Agree like first third := by
  cases one with
  | ok close =>
      cases other with
      | ok further => exact .ok (chain _ _ _ close further)
  | error error =>
      cases other with
      | error error => exact .error error

theorem ite
    {condition : Prop}
    [Decidable condition]
    {one other yes no : Except Error α}
    (agree : Agree like one yes)
    (differ : Agree like other no) :
    Agree like (if condition then one else other) (if condition then yes else no) := by
  by_cases true : condition
  · rw [if_pos true, if_pos true]
    exact agree
  · rw [if_neg true, if_neg true]
    exact differ

end Agree

/-! ## Steps -/

namespace Reading

@[simp]
theorem caseless_level (level : Level) :
    level.caseless.caseless = level.caseless := by
  simp [Level.caseless, Function.comp_def]

@[simp]
theorem caseless_caseless (reading : Reading) :
    reading.caseless.caseless = reading.caseless := by
  simp [Reading.caseless, Function.comp_def]

section Moves

variable {reading : Reading} {entry other : Entry} {item like : Item}

theorem add_alike
    (input : Input)
    (same : entry.caseless = other.caseless) :
    Alike (reading.add input entry) (reading.caseless.add input other) := by
  have added (reading : Reading) (entry : Entry) :
      (reading.add input entry).caseless = reading.caseless.add input entry.caseless := rfl
  rw [Alike, added, added, caseless_caseless, same]

theorem push_alike
    (input : Input)
    (same : item.caseless = like.caseless) :
    Alike (reading.push input item) (reading.caseless.push input like) :=
  add_alike input (congrArg Entry.single same)

theorem enter_alike
    (reading : Reading)
    (input : Input)
    (opener : Opener)
    (start : Nat)
    {flags inner : Flags}
    (same : flags.caseless = inner.caseless) :
    Alike (reading.enter input opener start flags)
      (reading.caseless.enter input opener start inner) := by
  have entered (reading : Reading) (flags : Flags) :
      (reading.enter input opener start flags).caseless =
        reading.caseless.enter input opener start flags.caseless := rfl
  rw [Alike, entered, entered, caseless_caseless, same]

theorem enterLook_alike
    (input : Input)
    (start : Nat)
    (behind negated : Bool) :
    Alike (reading.enterLook input start behind negated)
      (reading.caseless.enterLook input start behind negated) := by
  have entered (reading : Reading) :
      (reading.enterLook input start behind negated).caseless =
        reading.caseless.enterLook input start behind negated := rfl
  rw [Alike, entered, entered, caseless_caseless]

theorem skip_alike (input : Input) :
    Alike { reading with input := input } { reading.caseless with input := input } := by
  have skipped (reading : Reading) :
      Reading.caseless { reading with input := input } =
        { reading.caseless with input := input } := rfl
  rw [Alike, skipped, skipped, caseless_caseless]

theorem items_caseless (entry : Entry) :
    entry.caseless.items = entry.items.map Item.caseless := by
  cases entry <;> rfl

theorem sequence_caseless (level : Level) :
    sequence level.caseless = (sequence level).map Item.caseless := by
  simp only [sequence, Level.caseless, ← List.map_reverse, List.flatMap_map, List.map_flatMap,
    items_caseless]

theorem branches_caseless (level : Level) :
    branches level.caseless = (branches level).map (·.map Item.caseless) := by
  rw [branches, branches, sequence_caseless]
  simp [Level.caseless]

theorem nextBranch_alike (input : Input) :
    Alike (reading.nextBranch input) (reading.caseless.nextBranch input) := by
  have next (reading : Reading) :
      (reading.nextBranch input).caseless = reading.caseless.nextBranch input := by
    have level : reading.caseless.level = reading.level.caseless := rfl
    rw [nextBranch, nextBranch, level, sequence_caseless]
    rfl
  rw [Alike, next, next, caseless_caseless]

/-- A closed group keeps its kind and its widths. -/
theorem closedEntry_caseless (level : Level) :
    (closedEntry level.caseless).caseless = (closedEntry level).caseless := by
  have items := alternatives_caseless level.flags (branches level)
  have widths := width_ofItems items
  have faults := late_ofItems_eq items
  have flags : level.caseless.flags = level.flags.caseless := rfl
  have opener : level.caseless.opener = level.opener := rfl
  rw [closedEntry, closedEntry, branches_caseless, flags, opener]
  cases level.opener with
  | plain => exact congrArg Entry.bundle items
  | flagged | whole | capture | atomic =>
      simp only [Entry.caseless, Item.scoped, Item.captured, Item.atomic, Item.caseless, widths,
        faults]
  | look behind negated outermost =>
      have empty := congrArg List.isEmpty items
      rw [List.isEmpty_map, List.isEmpty_map] at empty
      dsimp only
      rw [empty]
      split
      · rfl
      · simp only [Entry.caseless, Item.looking, Item.caseless, widths, faults]
  | branch index =>
      dsimp only
      have first := map_caseless_map ((branches level).headD [])
      have second := map_caseless_map ((branches level).tail.headD [])
      have head (sequences : List (List Item)) :
          (sequences.map (·.map Item.caseless)).headD [] =
            (sequences.headD []).map Item.caseless := by
        cases sequences <;> rfl
      rw [head, ← List.map_tail, head]
      simp only [Entry.caseless, Item.branching, Item.caseless, width_ofItems first,
        width_ofItems second, late_ofItems_eq first, late_ofItems_eq second]

theorem closeGroup_alike
    (input : Input)
    (level : Level)
    (outer : List Level) :
    Alike (reading.closeGroup input level outer)
      (reading.caseless.closeGroup input level.caseless (outer.map Level.caseless)) := by
  have entry := closedEntry_caseless reading.level
  have widths : (Part.ofItems (closedEntry reading.level.caseless).items).width =
      (Part.ofItems (closedEntry reading.level).items).width := by
    apply width_ofItems
    rw [← items_caseless, ← items_caseless, entry]
  have inner : reading.caseless.level = reading.level.caseless := rfl
  have opener : reading.level.caseless.opener = reading.level.opener := rfl
  have added (reading : Reading) (entry : Entry) :
      (reading.add input entry).caseless = reading.caseless.add input entry.caseless := rfl
  rw [Alike, closeGroup, closeGroup, inner, opener, widths, added, added, entry]
  simp only [Reading.caseless, caseless_level, List.map_map, Function.comp_def]

end Moves

/-! ## Reading on -/

section Steps

variable (reading : Reading) (input : Input)

theorem pushAgain_caseless (index : Nat) :
    Agree Alike (reading.pushAgain input index) (reading.caseless.pushAgain input index) :=
  .bind_same _ fun _ => .ok (push_alike input rfl)

theorem pushNumbered_caseless (index width : Nat) :
    Agree Alike (reading.pushNumbered input index width)
      (reading.caseless.pushNumbered input index width) :=
  .ite (.error _) (.ite (.error _) (reading.pushAgain_caseless input index))

theorem readEscape_caseless (c : Char) :
    Agree Alike (reading.readEscape c input) (reading.caseless.readEscape c input) := by
  refine .bind_same _ ?_
  rintro ⟨escape, behind⟩
  cases escape with
  | point x => exact .ok (push_alike behind rfl)
  | category kind negated => exact .ok (push_alike behind rfl)
  | anchor letter => exact .ok (push_alike behind rfl)
  | group index => exact reading.pushNumbered_caseless behind index _

theorem readClass_caseless :
    Agree Alike (reading.readClass input) (reading.caseless.readClass input) := by
  rw [readClass, readClass]
  refine .bind_same _ ?_
  rintro ⟨negated, members, behind⟩
  exact .ok (push_alike behind (ofClass_caseless _ _ negated members))

/-- Two parts that later ones cannot tell apart. -/
def PartsAlike (first second : Part) : Prop :=
  first.width = second.width ∧ first.late = second.late

theorem ofItems_alike
    {items others : List Item}
    (same : items.map Item.caseless = others.map Item.caseless) :
    PartsAlike (.ofItems items) (.ofItems others) :=
  ⟨width_ofItems same, late_ofItems_eq same⟩

theorem repeatable_caseless
    (entry : Entry)
    (mark : Nat) :
    Agree PartsAlike (entry.repeatable mark) (entry.caseless.repeatable mark) := by
  cases entry with
  | bundle items => exact .ok (ofItems_alike (map_caseless_map items).symm)
  | single item =>
      have kind : item.caseless.kind = item.kind := rfl
      have alike : PartsAlike (.ofItems [item]) (.ofItems [item.caseless]) := ofItems_alike rfl
      rw [Entry.caseless, Entry.repeatable, Entry.repeatable, kind]
      cases item.kind with
      | leaf leaf =>
          cases leaf with
          | place sign => exact .error _
          | _ => exact .ok alike
      | repeated => exact .error _
      | other => exact .ok alike

theorem repeatLast_caseless
    (bounds : Bounds)
    (mark : Nat) :
    Agree Alike (reading.repeatLast bounds mark input)
      (reading.caseless.repeatLast bounds mark input) := by
  have entries : reading.caseless.level.entries = reading.level.entries.map Entry.caseless := rfl
  rw [repeatLast, repeatLast, entries]
  cases reading.level.entries with
  | nil => exact .error _
  | cons entry before =>
      refine .bind (repeatable_caseless entry mark) ?_
      rintro one other ⟨width, late⟩
      refine .bind_same _ ?_
      rintro ⟨greed, behind⟩
      have repeated : (Item.repeating reading.flags greed bounds.low bounds.high one).caseless =
          (Item.repeating reading.caseless.flags greed bounds.low bounds.high other).caseless := by
        have template : reading.caseless.flags.template = reading.flags.template := rfl
        simp only [Item.repeating, Item.caseless, template, width, late]
      have replaced (reading : Reading) (item : Item) (before : List Entry) :
          Reading.caseless { reading with
            input := behind
            level := { reading.level with entries := .single item :: before } } =
          { reading.caseless with
            input := behind
            level := { reading.caseless.level with
              entries := .single item.caseless :: before.map Entry.caseless } } := rfl
      refine .ok ?_
      rw [Alike, replaced, replaced, repeated, caseless_caseless]
      simp only [List.map_map, Function.comp_def, Entry.caseless_caseless]

theorem readRepeat_caseless (c : Char) :
    Agree Alike (reading.readRepeat c input) (reading.caseless.readRepeat c input) := by
  have literal : Alike (reading.push input (.ofPoint reading.flags false c.toNat))
      (reading.caseless.push input (.ofPoint reading.caseless.flags false c.toNat)) :=
    push_alike input rfl
  rw [readRepeat, readRepeat]
  refine .ite (reading.repeatLast_caseless input _ _) ?_
  refine .ite (reading.repeatLast_caseless input _ _) ?_
  refine .ite (reading.repeatLast_caseless input _ _) ?_
  refine .ite (.ok literal) (.bind_same _ ?_)
  intro bounds
  cases bounds with
  | none => exact .ok literal
  | some found => exact reading.repeatLast_caseless found.2 _ _

theorem enterCapture_caseless
    (start : Nat)
    (name : Option (List Char)) :
    Agree Alike (reading.enterCapture input start name)
      (reading.caseless.enterCapture input start name) := by
  have entered (groups : Groups) (index : Nat) :
      Alike (Reading.enter { reading with groups := groups } input (.capture index) start
          reading.flags)
        (Reading.enter { reading.caseless with groups := groups } input (.capture index) start
          reading.caseless.flags) :=
    enter_alike { reading with groups := groups } input _ start rfl
  cases name with
  | none => exact .ok (entered _ _)
  | some name =>
      have groups : reading.caseless.groups = reading.groups := rfl
      rw [enterCapture, enterCapture, groups]
      cases reading.groups.names.lookup name with
      | none => exact .ok (entered _ _)
      | some taken => exact .error _

theorem readNamedAgain_caseless :
    Agree Alike (reading.readNamedAgain input) (reading.caseless.readNamedAgain input) := by
  have groups : reading.caseless.groups = reading.groups := rfl
  rw [readNamedAgain, readNamedAgain, groups]
  refine .bind_same _ ?_
  rintro ⟨name, behind⟩
  dsimp only
  cases reading.groups.names.lookup name with
  | none => exact .error _
  | some index => exact .ite (.error _) (reading.pushAgain_caseless behind index)

theorem readNamed_caseless (start : Nat) :
    Agree Alike (reading.readNamed start input) (reading.caseless.readNamed start input) := by
  rw [readNamed, readNamed]
  refine .bind_same _ ?_
  intro taken
  split
  · exact .error _
  · refine .bind_same _ ?_
    rintro ⟨name, inside⟩
    exact reading.enterCapture_caseless inside start (some name)
  · exact reading.readNamedAgain_caseless _
  · exact .error _

theorem readBehind_caseless (start : Nat) :
    Agree Alike (reading.readBehind start input) (reading.caseless.readBehind start input) := by
  rw [readBehind, readBehind]
  refine .bind_same _ ?_
  intro taken
  split
  · exact .error _
  · exact .ok (enterLook_alike _ start true false)
  · exact .ok (enterLook_alike _ start true true)
  · exact .error _

theorem readBranch_caseless (start : Nat) :
    Agree Alike (reading.readBranch start input) (reading.caseless.readBranch start input) := by
  rw [readBranch, readBranch]
  refine .bind_same _ ?_
  rintro ⟨name, behind⟩
  refine .bind_same _ ?_
  rintro ⟨index, mentioned⟩
  refine .bind_same _ ?_
  intro _
  exact .ok (enter_alike { reading with mentioned := mentioned } behind _ start rfl)

theorem change_caseless
    (flags : Flags)
    (on off : List InlineFlag) :
    (flags.change on off).caseless = (flags.caseless.change on off).caseless := by
  have set (flags : Flags) (flag : InlineFlag) :
      (flags.set flag).caseless = (flags.caseless.set flag).caseless := by
    cases flag <;> rfl
  have clear (flags : Flags) (flag : InlineFlag) :
      (flags.clear flag).caseless = (flags.caseless.clear flag).caseless := by
    cases flag <;> rfl
  have setAll : ∀ (on : List InlineFlag) (flags inner : Flags), flags.caseless = inner.caseless →
      (on.foldl Flags.set flags).caseless = (on.foldl Flags.set inner).caseless := by
    intro on
    induction on with
    | nil => exact fun _ _ same => same
    | cons flag rest inductionHypothesis =>
        intro flags inner same
        refine inductionHypothesis _ _ ?_
        rw [set flags, set inner, same]
  have clearAll : ∀ (off : List InlineFlag) (flags inner : Flags),
      flags.caseless = inner.caseless →
        (off.foldl Flags.clear flags).caseless = (off.foldl Flags.clear inner).caseless := by
    intro off
    induction off with
    | nil => exact fun _ _ same => same
    | cons flag rest inductionHypothesis =>
        intro flags inner same
        refine inductionHypothesis _ _ ?_
        rw [clear flags, clear inner, same]
  exact clearAll off _ _ (setAll on _ _ rfl)

theorem readFlags_caseless
    (first : Char)
    (start : Nat) :
    Agree Alike (reading.readFlags first start input)
      (reading.caseless.readFlags first start input) := by
  rw [readFlags, readFlags]
  refine .bind_same _ ?_
  rintro ⟨on | ⟨on, off⟩, behind⟩
  · -- Flags for the whole expression.
    have opener : reading.caseless.level.opener = reading.level.opener := rfl
    have branches : reading.caseless.level.branches.isEmpty =
        reading.level.branches.isEmpty := List.isEmpty_map
    have entries : reading.caseless.level.entries.isEmpty =
        reading.level.entries.isEmpty := List.isEmpty_map
    dsimp only
    rw [opener, branches, entries]
    refine .ite (.ok ?_) (.error _)
    have flags := change_caseless reading.level.flags on []
    simp [Alike, Reading.caseless, Level.caseless, Function.comp_def, flags]
  · exact .ok (enter_alike _ behind _ start (change_caseless reading.flags on off))

theorem readExtension_caseless (start : Nat) :
    Agree Alike (reading.readExtension start input)
      (reading.caseless.readExtension start input) := by
  rw [readExtension, readExtension]
  refine .bind_same _ ?_
  intro taken
  split
  · exact .error _
  · rename_i token behind
    split
    · exact reading.readNamed_caseless behind start
    · exact .ok (enter_alike _ behind _ start rfl)
    · exact .ok (enter_alike _ behind _ start rfl)
    · exact .ok (enterLook_alike behind start false false)
    · exact .ok (enterLook_alike behind start false true)
    · exact reading.readBehind_caseless behind start
    · exact reading.readBranch_caseless behind start
    · refine .bind_same _ ?_
      intro last
      cases last with
      | none => exact .error _
      | some last => exact .ok (skip_alike last)
    · exact .ite (reading.readFlags_caseless behind _ start) (.error _)
    · exact .error _

theorem readOpening_caseless :
    Agree Alike (reading.readOpening input) (reading.caseless.readOpening input) := by
  rw [readOpening, readOpening]
  refine .bind_same _ ?_
  intro question
  cases question with
  | none => exact reading.enterCapture_caseless input _ none
  | some behind => exact reading.readExtension_caseless behind _

theorem readBar_caseless (mark : Nat) :
    Agree Alike (reading.readBar mark input) (reading.caseless.readBar mark input) := by
  have opener : reading.caseless.level.opener = reading.level.opener := rfl
  have branches : reading.caseless.level.branches.isEmpty = reading.level.branches.isEmpty :=
    List.isEmpty_map
  rw [readBar, readBar, opener, branches]
  split
  · exact .ite (.ok (nextBranch_alike input)) (.error _)
  · exact .ok (nextBranch_alike input)

theorem readClosing_caseless (mark : Nat) :
    Agree Alike (reading.readClosing mark input) (reading.caseless.readClosing mark input) := by
  have outer : reading.caseless.outer = reading.outer.map Level.caseless := rfl
  rw [readClosing, readClosing, outer]
  cases reading.outer with
  | nil => exact .bind_same _ fun _ => .error _
  | cons level rest => exact .ok (closeGroup_alike input level rest)

theorem skipComment_caseless :
    Agree Alike (reading.skipComment input) (reading.caseless.skipComment input) := by
  rw [skipComment, skipComment]
  refine .bind_same _ ?_
  intro behind
  cases behind with
  | none => exact .ok (skip_alike _)
  | some last => exact .ok (skip_alike last)

theorem readPlain_caseless (c : Char) :
    Agree Alike (reading.readPlain c input) (reading.caseless.readPlain c input) := by
  rw [readPlain.eq_def, readPlain.eq_def]
  split
  · exact reading.readOpening_caseless input
  · exact reading.readClass_caseless input
  · exact .ok (push_alike input rfl)
  · exact .ok (push_alike input rfl)
  · exact .ok (push_alike input rfl)
  · exact .ite (reading.readRepeat_caseless input c) (.ok (push_alike input rfl))

theorem step_caseless (token : Token) :
    Agree Alike (reading.step token) (reading.caseless.step token) := by
  have outer : reading.caseless.outer.isEmpty = reading.outer.isEmpty := List.isEmpty_map
  have opener : reading.caseless.level.opener = reading.level.opener := rfl
  have branches : reading.caseless.level.branches.isEmpty = reading.level.branches.isEmpty :=
    List.isEmpty_map
  rw [step, step, outer, opener, branches]
  refine .ite (reading.readClosing_caseless _ _) ?_
  refine .ite (reading.readBar_caseless _ _) (.bind_same _ ?_)
  intro input
  split
  · exact reading.readClosing_caseless input _
  · exact reading.readBar_caseless input _
  · exact reading.readEscape_caseless input _
  · refine .ite (.ok (skip_alike input)) ?_
    exact .ite (reading.skipComment_caseless input) (reading.readPlain_caseless input _)

end Steps

variable {first second : Reading}

theorem step_alike
    (alike : Alike first second)
    (token : Token) :
    Agree Alike (first.step token) (second.step token) := by
  have one := first.step_caseless token
  have other := second.step_caseless token
  rw [← alike] at other
  exact one.trans (fun _ _ _ => Eq.trans) (other.symm fun _ _ => Eq.symm)

/-- Readings that differ in their tests only stay so. -/
theorem run_alike
    (alike : Alike first second)
    (steps : Nat) :
    Agree Alike (run steps first) (run steps second) := by
  induction steps generalizing first second with
  | zero => exact .ok alike
  | succ steps inductionHypothesis =>
      have same : first.caseless = second.caseless := alike
      have input : first.input = second.input := by
        change first.caseless.input = second.caseless.input
        rw [same]
      rw [run, run, input]
      cases second.input.peek? with
      | none => exact .ok alike
      | some token =>
          have stepped := step_alike alike token
          dsimp only
          revert stepped
          generalize first.step token = one, second.step token = other
          intro stepped
          cases stepped with
          | ok close => exact inductionHypothesis close
          | error error => exact .error error

theorem finish_caseless (reading : Reading) :
    Agree (fun _ _ => True) reading.finish reading.caseless.finish := by
  have outer : reading.caseless.outer = reading.outer.map Level.caseless := rfl
  rw [finish, finish, outer]
  cases reading.outer with
  | cons level rest => exact .error _
  | nil =>
      refine .bind_same _ fun _ => .bind_same _ fun _ => ?_
      have level : reading.caseless.level = reading.level.caseless := rfl
      have flags : reading.level.caseless.flags = reading.level.flags.caseless := rfl
      have late := late_ofItems_eq
        (alternatives_caseless reading.level.flags (branches reading.level))
      dsimp only
      rw [level, flags, branches_caseless, late]
      split
      · exact .error _
      · exact .ok trivial

theorem finish_alike
    (alike : Alike first second) :
    Agree (fun _ _ => True) first.finish second.finish := by
  have one := first.finish_caseless
  have other := second.finish_caseless
  rw [← alike] at other
  exact one.trans (fun _ _ _ _ _ => trivial) (other.symm fun _ _ _ => trivial)

end Reading

/-- Under flags that differ in the regard to case only, an expression compiles to the same groups
or fails in the same way. -/
theorem compile_alike
    {flags inner : Flags}
    (same : flags.caseless = inner.caseless)
    (source : List Char) :
    Agree (fun one other : Regex => one.groupCount = other.groupCount ∧ one.names = other.names)
      (compile flags source) (compile inner source) := by
  rw [compile, compile]
  refine .bind_same _ ?_
  intro input
  have start : Reading.Alike
      { input := input, level := { opener := .whole, start := 0, flags := flags } }
      { input := input, level := { opener := .whole, start := 0, flags := inner } } := by
    simp [Reading.Alike, Reading.caseless, Level.caseless, same]
  refine (Reading.run_alike start _).bind ?_
  intro first second alike
  refine (Reading.finish_alike alike).bind ?_
  intro items others _
  have same : first.caseless = second.caseless := alike
  have groups : first.groups = second.groups := by
    change first.caseless.groups = second.caseless.groups
    rw [same]
  exact .ok ⟨by rw [groups], by rw [groups]⟩

end NoticeScan.Regex
