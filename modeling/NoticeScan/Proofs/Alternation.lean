import NoticeScan.Proofs.Assembly

/-!
# Alternatives in their order

A choice tries its branches from left to right. Unless all of them have something in common, or are
one character each, nothing is done to them beforehand, and what some of them find by themselves is
found with others behind them as well.
-/

namespace NoticeScan.Regex

/-! ## Branches with nothing in common -/

/-- A branch starts with something that cannot be shared with other branches. -/
def StandsOut (branch : List Item) : Prop :=
  ∃ item rest, branch = item :: rest ∧ item.kind = .other

section Choices

variable {flags : Flags} {branches : List (List Item)}

theorem standsOut_single
    {item : Item}
    (other : item.kind = .other) :
    StandsOut [item] :=
  ⟨item, [], rfl, other⟩

theorem not_startsAlike_of_standsOut
    {branch : List Item}
    (out : StandsOut branch)
    (item : Item) :
    startsAlike item branch = false := by
  obtain ⟨next, rest, rfl, other⟩ := out
  unfold startsAlike
  dsimp only
  rw [other]
  cases item.kind <;> rfl

theorem not_startsAlike_of_other
    {item : Item}
    (other : item.kind = .other)
    (branch : List Item) :
    startsAlike item branch = false := by
  cases branch with
  | nil => rfl
  | cons next rest =>
      unfold startsAlike
      rw [other]

/-- Branches of which one stands out have nothing in common. -/
theorem splitShared_of_standsOut
    {first : List Item}
    {others : List (List Item)}
    (some : others ≠ [])
    (out : ∃ branch ∈ first :: others, StandsOut branch) :
    splitShared first others = ([], first :: others) := by
  cases first with
  | nil => rfl
  | cons item rest =>
      have differ : others.all (startsAlike item) = false := by
        obtain ⟨branch, member, stands⟩ := out
        rw [List.all_eq_false]
        rcases List.mem_cons.mp member with rfl | among
        · obtain ⟨_, _, same, other⟩ := stands
          cases same
          obtain ⟨next, listed⟩ := List.exists_mem_of_ne_nil others some
          exact ⟨next, listed, by simp [not_startsAlike_of_other other]⟩
        · exact ⟨branch, among, by simp [not_startsAlike_of_standsOut stands]⟩
      rw [splitShared, differ]
      rfl

theorem alternatives_of_standsOut
    {first : List Item}
    {others : List (List Item)}
    (some : others ≠ [])
    (out : ∃ branch ∈ first :: others, StandsOut branch) :
    alternatives flags (first :: others) = [.choice flags (first :: others)] := by
  have split := splitShared_of_standsOut some out
  obtain ⟨next, rest, rfl⟩ := List.exists_cons_of_ne_nil some
  rw [alternatives, split]
  · rfl
  · exact List.cons_ne_nil next rest

theorem membersOf_of_standsOut
    (out : ∃ branch ∈ branches, StandsOut branch) :
    membersOf branches = none := by
  induction branches with
  | nil =>
      obtain ⟨branch, none, -⟩ := out
      exact absurd none List.not_mem_nil
  | cons first rest inductionHypothesis =>
      unfold membersOf
      split
      · rename_i nothing
        cases nothing
      · rename_i item others same
        cases same
        obtain ⟨branch, member, stands⟩ := out
        rcases List.mem_cons.mp member with rfl | among
        · obtain ⟨_, _, alike, other⟩ := stands
          cases alike
          rw [other]
        · rw [inductionHypothesis ⟨branch, among, stands⟩]
          split <;> simp_all
      · rfl

theorem leadingPoint?_of_standsOut
    {branch : List Item}
    (out : StandsOut branch) :
    leadingPoint? branch = none := by
  obtain ⟨item, rest, rfl, other⟩ := out
  unfold leadingPoint?
  dsimp only
  rw [other]

theorem mapM_eq_none
    {α β : Type}
    {f : α → Option β}
    {list : List α}
    {item : α}
    (member : item ∈ list)
    (none : f item = .none) :
    list.mapM f = .none := by
  induction list with
  | nil => cases member
  | cons head rest inductionHypothesis =>
      rw [List.mapM_cons]
      rcases List.mem_cons.mp member with rfl | later
      · rw [none]
        rfl
      · rw [inductionHypothesis later]
        cases f head <;> rfl

/-- A choice in which a branch stands out may start with anything. -/
theorem opening_of_standsOut
    (out : ∃ branch ∈ branches, StandsOut branch) :
    (Item.choice flags branches).opening = none := by
  have noPoints : branches.mapM leadingPoint? = none := by
    obtain ⟨branch, member, stands⟩ := out
    exact mapM_eq_none member (leadingPoint?_of_standsOut stands)
  unfold Item.choice
  rw [membersOf_of_standsOut out]
  dsimp only
  rw [noPoints]
  rfl

end Choices

/-! ## Earlier branches -/

/-- What alternatives come to, if one of them stands out, is the choice between them. -/
theorem node_alternatives_of_standsOut
    {flags : Flags}
    {branches : List (List Item)}
    (out : ∃ branch ∈ branches, StandsOut branch) :
    (Part.ofItems (alternatives flags branches)).node =
      Node.choice (branches.map fun branch => (Part.ofItems branch).node) := by
  match branches with
  | [] =>
      obtain ⟨branch, none, -⟩ := out
      cases none
  | [branch] => rfl
  | first :: second :: rest =>
      rw [alternatives_of_standsOut (List.cons_ne_nil second rest) out]
      exact choice_node (membersOf_of_standsOut out)

/-- An expression that makes up several branches of which one stands out compiles to the choice
between them, and its matches may start anywhere. -/
theorem Splits.compile_choice
    {flags : Flags}
    {after : List (List Char × Nat)}
    {piece : List Char}
    {first : List Item}
    {others : List (List Item)}
    (splits : Splits false flags [] after piece (first :: others))
    (some : others ≠ [])
    (out : ∃ branch ∈ first :: others, StandsOut branch)
    (written : WrittenBranches flags (first :: others))
    (late : ∀ branch ∈ first :: others, ∀ item ∈ branch, item.late = none) :
    ∃ regex, Regex.compile flags piece = .ok regex ∧ regex.opening = none ∧
      regex.node =
        Node.choice ((first :: others).map fun branch => (Part.ofItems branch).node) := by
  obtain ⟨regex, compiled, node, -, -, opening⟩ :=
    splits.compile_opening ((late_ofItems _).mpr ((late_alternatives written).mpr late))
  refine ⟨regex, compiled, ?_, node.trans (node_alternatives_of_standsOut out)⟩
  rw [alternatives_of_standsOut some out] at opening
  have none : openingOf [Item.choice flags (first :: others)] = none := opening_of_standsOut out
  rw [opening, openingTest?, none]
  exact ite_self _

section Matches

variable {text : Array Char} {next : Next} {cursor behind : Cursor}

theorem run_alt_found
    {first second : Node}
    {looping : Bool}
    (found : first.run text looping next cursor = .found behind) :
    (Node.alt first second).run text looping next cursor = .found behind := by
  rw [Node.run, found]

theorem found_of_cursor?
    {outcome : Outcome}
    (reached : outcome.cursor? = some behind) :
    outcome = .found behind := by
  cases outcome with
  | found last =>
      cases reached
      rfl
  | failed marks => cases reached

/-- What a choice finds is found if there are more branches behind it. -/
theorem run_choice_append
    {front : List Node}
    (back : List Node)
    (found : (Node.choice front).run text false next cursor = .found behind) :
    (Node.choice (front ++ back)).run text false next cursor = .found behind := by
  induction front generalizing cursor with
  | nil => cases found
  | cons node rest inductionHypothesis =>
      cases rest with
      | nil =>
          cases back with
          | nil => exact found
          | cons other more => exact run_alt_found found
      | cons other more =>
          have split : Node.choice (node :: other :: more) =
              .alt node (Node.choice (other :: more)) := rfl
          have whole : Node.choice (node :: other :: more ++ back) =
              .alt node (Node.choice (other :: more ++ back)) := rfl
          rw [split, Node.run] at found
          rw [whole, Node.run]
          cases here : node.run text false next cursor with
          | found last =>
              rw [here] at found
              exact found
          | failed marks =>
              rw [here] at found
              exact inductionHypothesis found

/-- A match that a choice has at a position is that of a longer choice. -/
theorem matchAt_of_front
    {one whole : Regex}
    {front back : List Node}
    (nodeOne : one.node = Node.choice front)
    (nodeWhole : whole.node = Node.choice (front ++ back))
    (opening : whole.opening = none)
    {moving : Bool}
    {pos : Nat}
    {found : Found}
    (is : one.matchAt text moving pos = some found) :
    whole.matchAt text moving pos = some found := by
  have mayOpen : whole.mayOpen text pos = true := by
    rw [Regex.mayOpen, opening]
  rw [matchAt] at is
  split at is
  · rw [matchFrom, Option.map_eq_some_iff] at is
    obtain ⟨last, reached, rfl⟩ := is
    rw [matchAt, if_pos mayOpen, matchFrom, Option.map_eq_some_iff]
    refine ⟨last, ?_, rfl⟩
    rw [nodeOne] at reached
    rw [nodeWhole, run_choice_append back (found_of_cursor? reached)]
    rfl
  · cases is

/-- What is found with some branches, one of which stands out, is found with more behind them as
well. -/
theorem Splits.matchAt_bar
    {flags : Flags}
    {between after : List (List Char × Nat)}
    {front back : List Char}
    {branches more : List (List Item)}
    (splits : Splits false flags [] between front branches)
    (others : Splits false flags between after back more)
    (some : more ≠ [])
    (out : ∃ branch ∈ branches, StandsOut branch)
    (fine : ∀ branch ∈ branches ++ more,
      (∀ item ∈ branch, item.Written flags) ∧ ∀ item ∈ branch, item.late = none)
    {one whole : Regex}
    (compiled : Regex.compile flags front = .ok one)
    (compiledWhole : Regex.compile flags (front ++ '|' :: back) = .ok whole)
    {moving : Bool}
    {pos : Nat}
    {found : Found}
    (is : one.matchAt text moving pos = .some found) :
    whole.matchAt text moving pos = .some found := by
  obtain ⟨branch, member, stands⟩ := out
  have early : ∀ branch ∈ branches,
      (∀ item ∈ branch, item.Written flags) ∧ ∀ item ∈ branch, item.late = none :=
    fun branch among => fine branch (List.mem_append_left more among)
  have written : WrittenBranches flags branches := fun branch among => (early branch among).1
  obtain ⟨_, compiledOne, nodeOne, -⟩ := splits.compile
    ((late_ofItems _).mpr ((late_alternatives written).mpr fun branch among =>
      (early branch among).2))
  rw [node_alternatives_of_standsOut ⟨branch, member, stands⟩] at nodeOne
  obtain ⟨first, rest, rfl⟩ := List.exists_cons_of_ne_nil (List.ne_nil_of_mem member)
  obtain ⟨_, compiledAll, opening, nodeAll⟩ := (splits.bar others).compile_choice
    (List.append_ne_nil_of_right_ne_nil rest some)
    ⟨branch, List.mem_append_left more member, stands⟩
    (fun branch among => (fine branch among).1) (fun branch among => (fine branch among).2)
  cases Except.ok.inj (compiledOne.symm.trans compiled)
  cases Except.ok.inj (compiledAll.symm.trans compiledWhole)
  have split (node : List Item → Node) :
      (first :: rest ++ more).map node = (first :: rest).map node ++ more.map node :=
    List.map_append
  exact matchAt_of_front nodeOne (nodeAll.trans (congrArg Node.choice (split _))) opening is

/-- What there is at the start of a text is found first. -/
theorem next?_of_matchAt
    {regex : Regex}
    {found : Found}
    (here : regex.matchAt text false 0 = some found) :
    regex.next? text {} =
      some (found, { pos := found.stop, moving := found.stop == found.start }) := by
  have searched : regex.searchFrom text text.size false 0 = some found := by
    cases text.size with
    | zero => exact here
    | succ more => rw [searchFrom, here]
  rw [Regex.next?]
  exact congrArg _ searched

/-- An expression that compiles has the match that is seen when it is tried. -/
theorem exists_matchAt_of_any
    {flags : Flags}
    {piece : List Char}
    {pos : Nat}
    {asked : Found → Bool}
    (seen : (Regex.compile flags piece).toOption.any
      (fun regex => (regex.matchAt text false pos).any asked) = true) :
    ∃ regex, Regex.compile flags piece = .ok regex ∧
      ∃ found, regex.matchAt text false pos = some found ∧ asked found = true := by
  obtain ⟨regex, compiled, matched⟩ := (Option.any_eq_true _ _).mp seen
  obtain ⟨found, is, holds⟩ := (Option.any_eq_true _ _).mp matched
  exact ⟨regex, eq_ok_of_toOption compiled, found, is, holds⟩

end Matches

end NoticeScan.Regex
