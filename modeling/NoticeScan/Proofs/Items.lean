import NoticeScan.Proofs.Fits
import NoticeScan.Proofs.Kin
import NoticeScan.Regex.Item

/-!
# The ways of items

Items one after the other are gone through one after the other, and a choice between branches is a
way of one of them, whatever the branches have in common at the start and however many of them
make up a class.
-/

namespace NoticeScan.Regex

/-! ## Sequences -/

/-- The ways of items that stand one after the other. -/
def itemsWays (text : Array Char) (items : List Item) : Ways :=
  (Part.ofItems items).node.ways text

/-- The ways of one branch of several. -/
def anyWays (text : Array Char) (branches : List (List Item)) : Ways := fun start stop passes =>
  ∃ items ∈ branches, itemsWays text items start stop passes

/-- A meaning of expressions as ways: a test is one character that passes it, a sequence is gone
through from left to right, and a choice is either of its sides. -/
structure Reads (text : Array Char) (meaning : Node → Ways) : Prop where
  empty : meaning .empty = .stay
  never : ∀ start stop passes, ¬ meaning .never start stop passes
  char : ∀ test, meaning (.char test) = .oneOf text test
  seq : ∀ first second, meaning (.seq first second) = (meaning first).andThen (meaning second)
  alt : ∀ first second, meaning (.alt first second) = (meaning first).either (meaning second)

theorem Node.reads_ways (text : Array Char) :
    Reads text (Node.ways text) :=
  ⟨rfl, fun _ _ _ way => way.elim, fun _ => rfl, fun _ _ => rfl, fun _ _ => rfl⟩

/-- What one branch of several means. -/
def anyMeaning (meaning : Node → Ways) (branches : List (List Item)) : Ways :=
  fun start stop passes =>
    ∃ items ∈ branches, meaning (Part.ofItems items).node start stop passes

namespace Reads

variable {text : Array Char} {meaning : Node → Ways} (reads : Reads text meaning)

include reads

theorem sequence_cons
    (node : Node)
    (rest : List Node) :
    meaning (Node.sequence (node :: rest)) =
      (meaning node).andThen (meaning (Node.sequence rest)) := by
  cases rest with
  | nil =>
      have ended : meaning (Node.sequence []) = .stay := reads.empty
      rw [ended, Ways.andThen_stay]
      rfl
  | cons next others => exact reads.seq _ _

theorem ofItems_nil : meaning (Part.ofItems []).node = .stay :=
  reads.empty

theorem ofItems_cons
    (item : Item)
    (rest : List Item) :
    meaning (Part.ofItems (item :: rest)).node =
      (meaning item.node).andThen (meaning (Part.ofItems rest).node) := by
  unfold Part.ofItems Part.sequence
  simp only [List.map_cons, List.map_map]
  exact reads.sequence_cons _ _

theorem ofItems_single
    (item : Item) :
    meaning (Part.ofItems [item]).node = meaning item.node := by
  rw [reads.ofItems_cons, reads.ofItems_nil, Ways.andThen_stay]

theorem ofItems_append
    (first second : List Item) :
    meaning (Part.ofItems (first ++ second)).node =
      (meaning (Part.ofItems first).node).andThen (meaning (Part.ofItems second).node) := by
  induction first with
  | nil => rw [List.nil_append, reads.ofItems_nil, Ways.stay_andThen]
  | cons item rest inductionHypothesis =>
      rw [List.cons_append, reads.ofItems_cons, reads.ofItems_cons, inductionHypothesis,
        Ways.andThen_assoc]

theorem choice
    (nodes : List Node)
    (start stop : Nat)
    (passes : List Pass) :
    meaning (Node.choice nodes) start stop passes ↔
      ∃ node ∈ nodes, meaning node start stop passes := by
  induction nodes with
  | nil => simp [Node.choice, reads.never]
  | cons node rest inductionHypothesis =>
      cases rest with
      | nil => simp [Node.choice]
      | cons next others =>
          have split : meaning (Node.choice (node :: next :: others)) start stop passes ↔
              meaning node start stop passes ∨
                meaning (Node.choice (next :: others)) start stop passes := by
            have node : Node.choice (node :: next :: others) =
                .alt node (Node.choice (next :: others)) := rfl
            rw [node, reads.alt]
            exact Iff.rfl
          rw [split, inductionHypothesis]
          exact (List.exists_mem_cons_iff
            (fun other : Node => meaning other start stop passes) node _).symm

end Reads

section Sequences

variable (text : Array Char)

theorem itemsWays_single
    (item : Item) :
    itemsWays text [item] = item.node.ways text :=
  (Node.reads_ways text).ofItems_single item

theorem itemsWays_append
    (first second : List Item) :
    itemsWays text (first ++ second) = (itemsWays text first).andThen (itemsWays text second) :=
  (Node.reads_ways text).ofItems_append first second

theorem anyWays_cons
    (items : List Item)
    (branches : List (List Item)) :
    anyWays text (items :: branches) = (itemsWays text items).either (anyWays text branches) := by
  funext start stop passes
  exact propext (List.exists_mem_cons_iff _ _ _)

end Sequences

/-! ## Items as they are written -/

/-- The anchor of the sign or the letter of a position. -/
def placeAnchor (flags : Flags) (sign : Char) : Anchor :=
  if sign = '^' then if flags.multiLine then .lineStart else .textStart
  else if sign = '$' then if flags.multiLine then .lineEnd else .lastLineEnd
  else if sign = 'A' then .textStart
  else if sign = 'Z' then .textEnd
  else if sign = 'b' then .wordEdge flags.ascii
  else .noWordEdge flags.ascii

/-- The tree of an item that holds no other. -/
def Leaf.node (flags : Flags) : Leaf → Node
  | .point negated x => .char (.ofPoint flags negated x)
  | .oneOf negated members => .char (.ofMembers flags negated members)
  | .dot => .char (.dot flags)
  | .place sign => .anchor (placeAnchor flags sign)
  | .never => .never
  | .again index => .again index flags.folding

/-- An item that holds no other is what is written for it. -/
def Item.Written (flags : Flags) (item : Item) : Prop :=
  ∀ leaf, item.kind = .leaf leaf → item.node = leaf.node flags ∧ item.late = none

/-- All items of some branches are what is written for them. -/
def WrittenBranches (flags : Flags) (branches : List (List Item)) : Prop :=
  ∀ items ∈ branches, ∀ item ∈ items, item.Written flags

/-- An item is what is written for it and holds no group. -/
structure Item.Tidy (flags : Flags) (item : Item) : Prop where
  bare : item.node.bare = true
  written : item.Written flags

/-- All items of some branches are tidy. -/
def TidyBranches (flags : Flags) (branches : List (List Item)) : Prop :=
  ∀ items ∈ branches, ∀ item ∈ items, item.Tidy flags

theorem TidyBranches.written
    {flags : Flags}
    {branches : List (List Item)}
    (tidy : TidyBranches flags branches) :
    WrittenBranches flags branches :=
  fun items member item inside => (tidy items member item inside).written

theorem Leaf.bare_node
    (flags : Flags)
    (leaf : Leaf) :
    (leaf.node flags).bare = true := by
  cases leaf <;> rfl

theorem bare_sequence
    (nodes : List Node) :
    (Node.sequence nodes).bare = true ↔ ∀ node ∈ nodes, node.bare = true := by
  induction nodes with
  | nil => simp [Node.sequence, Node.bare]
  | cons node rest inductionHypothesis =>
      cases rest with
      | nil => simp [Node.sequence]
      | cons next others =>
          have split : (Node.sequence (node :: next :: others)).bare =
              (node.bare && (Node.sequence (next :: others)).bare) := rfl
          rw [split, Bool.and_eq_true, inductionHypothesis]
          exact (List.forall_mem_cons (p := fun other : Node => other.bare = true)).symm

theorem bare_choice
    (nodes : List Node) :
    (Node.choice nodes).bare = true ↔ ∀ node ∈ nodes, node.bare = true := by
  induction nodes with
  | nil => simp [Node.choice, Node.bare]
  | cons node rest inductionHypothesis =>
      cases rest with
      | nil => simp [Node.choice]
      | cons next others =>
          have split : (Node.choice (node :: next :: others)).bare =
              (node.bare && (Node.choice (next :: others)).bare) := rfl
          rw [split, Bool.and_eq_true, inductionHypothesis]
          exact (List.forall_mem_cons (p := fun other : Node => other.bare = true)).symm

theorem bare_ofItems
    (items : List Item) :
    (Part.ofItems items).node.bare = true ↔ ∀ item ∈ items, item.node.bare = true := by
  unfold Part.ofItems Part.sequence
  simp only [List.map_map]
  rw [bare_sequence]
  simp

/-! ## What branches have in common -/

theorem startsAlike_iff
    {item : Item}
    {items : List Item} :
    startsAlike item items = true ↔
      ∃ other rest leaf, items = other :: rest ∧ item.kind = .leaf leaf ∧
        other.kind = .leaf leaf := by
  cases items with
  | nil => simp [startsAlike]
  | cons other rest =>
      constructor
      · intro alike
        unfold startsAlike at alike
        cases first : item.kind with
        | leaf one =>
            cases second : other.kind with
            | leaf two =>
                simp only [first, second, decide_eq_true_eq] at alike
                exact ⟨other, rest, one, rfl, rfl, by rw [second, alike]⟩
            | repeated => simp [first, second] at alike
            | other => simp [first, second] at alike
        | repeated => simp [first] at alike
        | other => simp [first] at alike
      · rintro ⟨same, more, leaf, shape, itemLeaf, otherLeaf⟩
        cases shape
        unfold startsAlike
        simp [itemLeaf, otherLeaf]

/-- Branches mean what they have in common at the start, and then one of what is left of them. -/
theorem Reads.splitShared
    {text : Array Char}
    {meaning : Node → Ways}
    (reads : Reads text meaning)
    {flags : Flags}
    (first : List Item)
    (others : List (List Item))
    (written : WrittenBranches flags (first :: others)) :
    anyMeaning meaning (first :: others) =
      (meaning (Part.ofItems (splitShared first others).1).node).andThen
        (anyMeaning meaning (splitShared first others).2) := by
  induction first generalizing others with
  | nil =>
      unfold Regex.splitShared
      rw [reads.ofItems_nil, Ways.stay_andThen]
  | cons item rest inductionHypothesis =>
      unfold Regex.splitShared
      by_cases alike : others.all (startsAlike item) = true
      · rw [if_pos alike]
        have tails : WrittenBranches flags (rest :: others.map List.tail) := by
          intro items member
          rcases List.mem_cons.mp member with rfl | tail
          · intro other inside
            exact written (item :: items) List.mem_cons_self other (List.mem_cons_of_mem _ inside)
          · obtain ⟨branch, inOthers, rfl⟩ := List.mem_map.mp tail
            intro other inside
            exact written branch (List.mem_cons_of_mem _ inOthers) other
              (List.mem_of_mem_tail inside)
        have same : ∀ branch ∈ others, meaning (Part.ofItems branch).node =
            (meaning item.node).andThen (meaning (Part.ofItems branch.tail).node) := by
          intro branch member
          obtain ⟨other, more, leaf, rfl, itemLeaf, otherLeaf⟩ :=
            startsAlike_iff.mp (List.all_eq_true.mp alike branch member)
          have itemNode := (written _ List.mem_cons_self item List.mem_cons_self leaf itemLeaf).1
          have otherNode := (written _ (List.mem_cons_of_mem _ member) other
            List.mem_cons_self leaf otherLeaf).1
          rw [reads.ofItems_cons, otherNode, ← itemNode]
          rfl
        have step := inductionHypothesis (others.map List.tail) tails
        dsimp only
        rw [reads.ofItems_cons, Ways.andThen_assoc, ← step]
        funext start stop passes
        apply propext
        constructor
        · rintro ⟨branch, member, way⟩
          rcases List.mem_cons.mp member with rfl | inOthers
          · rw [reads.ofItems_cons] at way
            obtain ⟨middle, before, after, one, two, rfl⟩ := way
            exact ⟨middle, before, after, one, ⟨rest, List.mem_cons_self, two⟩, rfl⟩
          · rw [same branch inOthers] at way
            obtain ⟨middle, before, after, one, two, rfl⟩ := way
            exact ⟨middle, before, after, one,
              ⟨branch.tail, List.mem_cons_of_mem _ (List.mem_map_of_mem inOthers), two⟩, rfl⟩
        · rintro ⟨middle, before, after, one, ⟨branch, member, two⟩, rfl⟩
          rcases List.mem_cons.mp member with rfl | tail
          · refine ⟨item :: branch, List.mem_cons_self, ?_⟩
            rw [reads.ofItems_cons]
            exact ⟨middle, before, after, one, two, rfl⟩
          · obtain ⟨other, inOthers, rfl⟩ := List.mem_map.mp tail
            refine ⟨other, List.mem_cons_of_mem _ inOthers, ?_⟩
            rw [same other inOthers]
            exact ⟨middle, before, after, one, two, rfl⟩
      · rw [if_neg alike]
        dsimp only
        rw [reads.ofItems_nil, Ways.stay_andThen]

/-! ## Classes -/

/-- All points that branches are made of lie in the basic plane, so that a class of several of
them treats case as each of them does. -/
def NearBranches (branches : List (List Item)) : Prop :=
  ∀ items ∈ branches, ∀ item ∈ items, ∀ x,
    item.kind = .leaf (.point false x) → x ≤ basicPlaneEnd

section Members

variable (flags : Flags)

theorem passes_ofMembers
    (members : List Member)
    (c : Char) :
    (CharTest.ofMembers flags false members).passes c = true ↔
      ∃ member ∈ members, ∃ condition ∈ member.conditions flags,
        condition.holds c.toNat = true := by
  simp [CharTest.ofMembers, CharTest.passes, List.any_flatMap]

theorem passes_ofMembers_append
    (first second : List Member)
    (c : Char) :
    (CharTest.ofMembers flags false (first ++ second)).passes c = true ↔
      (CharTest.ofMembers flags false first).passes c = true ∨
        (CharTest.ofMembers flags false second).passes c = true := by
  simp only [passes_ofMembers, List.mem_append]
  constructor
  · rintro ⟨member, one | other, holds⟩
    · exact Or.inl ⟨member, one, holds⟩
    · exact Or.inr ⟨member, other, holds⟩
  · rintro (⟨member, one, holds⟩ | ⟨member, other, holds⟩)
    · exact ⟨member, Or.inl one, holds⟩
    · exact ⟨member, Or.inr other, holds⟩

theorem passes_point
    {x : Nat}
    (near : x ≤ basicPlaneEnd)
    (c : Char) :
    (CharTest.ofMembers flags false [.point x]).passes c =
      (CharTest.ofPoint flags false x).passes c := by
  unfold CharTest.ofMembers CharTest.ofPoint CharTest.passes Member.conditions
  cases folding : flags.folding with
  | exact =>
      simp only [List.flatMap_cons, List.flatMap_nil, List.append_nil, List.any_cons,
        List.any_nil, Bool.or_false, Bool.bne_false, Folding.kin]
      rw [List.contains_eq_any_beq]
      simp [Condition.holds, Bool.beq_comm]
  | ascii =>
      simp only [near, if_true, List.flatMap_cons, List.flatMap_nil, List.append_nil,
        List.any_map, Bool.bne_false]
      rw [List.contains_eq_any_beq]
      rfl
  | full =>
      simp only [near, if_true, List.flatMap_cons, List.flatMap_nil, List.append_nil,
        List.any_map, Bool.bne_false]
      rw [List.contains_eq_any_beq]
      rfl

/-- Alone, a point takes whatever it takes in a class, and more if it is far. -/
theorem passes_of_passes_point
    {x : Nat}
    {c : Char}
    (inClass : (CharTest.ofMembers flags false [.point x]).passes c = true) :
    (CharTest.ofPoint flags false x).passes c = true := by
  by_cases near : x ≤ basicPlaneEnd
  · rw [← passes_point flags near]
    exact inClass
  · have far : basicPlaneEnd < x := Nat.lt_of_not_le near
    obtain ⟨member, listed, condition, among, holds⟩ := (passes_ofMembers flags _ c).mp inClass
    cases List.mem_singleton.mp listed
    unfold Member.conditions at among
    have kin : c.toNat ∈ flags.folding.kin x := by
      cases folding : flags.folding with
      | exact =>
          rw [folding] at among
          cases List.mem_singleton.mp among
          exact List.mem_singleton.mpr (eq_of_beq holds)
      | ascii =>
          rw [folding] at among
          dsimp only at among
          rw [if_neg near] at among
          cases List.mem_singleton.mp among
          have lowered : Folding.ascii.lower c.toNat = x := eq_of_beq holds
          have same : c.toNat = x := by
            unfold Folding.lower at lowered
            dsimp only at lowered
            unfold basicPlaneEnd at far
            split at lowered
            · rename_i capital
              simp only [Bool.and_eq_true, decide_eq_true_eq] at capital
              omega
            · exact lowered
          rw [same]
          unfold Folding.kin
          dsimp only
          split
          · exact List.mem_cons_self
          · split
            · exact List.mem_cons_self
            · exact List.mem_cons_self
      | full =>
          rw [folding] at among
          dsimp only at among
          rw [if_neg near] at among
          cases List.mem_singleton.mp among
          exact Text.mem_kin_of_lower far (eq_of_beq holds)
    unfold CharTest.ofPoint CharTest.passes
    dsimp only
    rw [Bool.bne_false]
    exact List.elem_eq_true_of_mem kin

/-- A class of the members of branches takes a character if and only if one of the branches
does. -/
theorem anyWays_membersOf
    (text : Array Char)
    {branches : List (List Item)}
    {members : List Member}
    (are : membersOf branches = some members)
    (written : WrittenBranches flags branches)
    (near : NearBranches branches) :
    anyWays text branches = Ways.oneOf text (.ofMembers flags false members) := by
  induction branches generalizing members with
  | nil =>
      cases are
      funext start stop passes
      apply propext
      constructor
      · rintro ⟨items, member, _⟩
        cases member
      · rintro ⟨⟨c, _, passes⟩, _⟩
        cases passes
  | cons items rest inductionHypothesis =>
      have restWritten : WrittenBranches flags rest :=
        fun branch member => written branch (List.mem_cons_of_mem _ member)
      have restNear : NearBranches rest :=
        fun branch member => near branch (List.mem_cons_of_mem _ member)
      have either : ∀ (some : List Member) (item : Item) (more : List Member),
          items = [item] → item.node = .char (.ofMembers flags false some) ∨
            (∃ x, x ≤ basicPlaneEnd ∧ some = [.point x] ∧
              item.node = .char (.ofPoint flags false x)) →
          membersOf rest = .some more →
          anyWays text (items :: rest) =
            Ways.oneOf text (.ofMembers flags false (some ++ more)) := by
        rintro some item more rfl shape others
        rw [anyWays_cons, itemsWays_single, inductionHypothesis others restWritten restNear]
        have alone : item.node.ways text = Ways.oneOf text (.ofMembers flags false some) := by
          rcases shape with node | ⟨x, nearby, rfl, node⟩
          · rw [node]
            rfl
          · rw [node]
            unfold Node.ways Ways.oneOf
            simp only [passes_point flags nearby]
        rw [alone]
        funext start stop passes
        apply propext
        unfold Ways.either Ways.oneOf
        simp only [passes_ofMembers_append]
        constructor
        · rintro (⟨⟨c, here, one⟩, ends⟩ | ⟨⟨c, here, other⟩, ends⟩)
          · exact ⟨⟨c, here, Or.inl one⟩, ends⟩
          · exact ⟨⟨c, here, Or.inr other⟩, ends⟩
        · rintro ⟨⟨c, here, one | other⟩, ends⟩
          · exact Or.inl ⟨⟨c, here, one⟩, ends⟩
          · exact Or.inr ⟨⟨c, here, other⟩, ends⟩
      cases items with
      | nil => cases are
      | cons item others =>
          cases others with
          | cons next more => cases are
          | nil =>
              have itemWritten := written _ List.mem_cons_self item List.mem_cons_self
              have itemNear := near _ List.mem_cons_self item List.mem_cons_self
              unfold membersOf at are
              cases others : membersOf rest with
              | none =>
                  rw [others] at are
                  split at are <;> simp_all
              | some more =>
                  rw [others] at are
                  split at are
                  · rename_i x _ kind same
                    cases same
                    cases are
                    exact either [.point x] item more rfl
                      (Or.inr ⟨x, itemNear x kind, rfl, (itemWritten _ kind).1⟩) others
                  · rename_i some _ kind same
                    cases same
                    cases are
                    exact either some item more rfl (Or.inl ((itemWritten _ kind).1)) others
                  · cases are

end Members

/-! ## Choices -/

section Choices

variable {flags : Flags} {branches : List (List Item)}

theorem choice_node
    (none : membersOf branches = none) :
    (Item.choice flags branches).node =
      Node.choice (branches.map fun items => (Part.ofItems items).node) := by
  unfold Item.choice
  rw [none]
  simp only [Part.choice, List.map_map]
  rfl

theorem choice_node_members
    {members : List Member}
    (are : membersOf branches = some members) :
    (Item.choice flags branches).node =
      .char (.ofMembers flags false members.eraseDups) := by
  unfold Item.choice
  rw [are]
  rfl

theorem Reads.choice_node
    {text : Array Char}
    {meaning : Node → Ways}
    (reads : Reads text meaning)
    (none : membersOf branches = none) :
    meaning (Item.choice flags branches).node = anyMeaning meaning branches := by
  rw [Regex.choice_node none]
  funext start stop passes
  apply propext
  rw [reads.choice]
  constructor
  · rintro ⟨node, member, way⟩
    obtain ⟨items, inside, rfl⟩ := List.mem_map.mp member
    exact ⟨items, inside, way⟩
  · rintro ⟨items, inside, way⟩
    exact ⟨_, List.mem_map_of_mem inside, way⟩

theorem ways_choice_written
    (text : Array Char)
    (written : WrittenBranches flags branches)
    (near : NearBranches branches) :
    (Item.choice flags branches).node.ways text = anyWays text branches := by
  cases are : membersOf branches with
  | none => exact (Node.reads_ways text).choice_node are
  | some members =>
      rw [choice_node_members are, anyWays_membersOf flags text are written near]
      unfold Node.ways Ways.oneOf
      simp only [passes_ofMembers, List.mem_eraseDups]

theorem splitShared_mem
    (first : List Item)
    (others : List (List Item)) :
    (∀ item ∈ (splitShared first others).1, item ∈ first) ∧
      ∀ items ∈ (splitShared first others).2,
        ∃ branch ∈ first :: others, ∀ item ∈ items, item ∈ branch := by
  induction first generalizing others with
  | nil =>
      unfold splitShared
      exact ⟨fun item member => absurd member List.not_mem_nil,
        fun items member => ⟨items, member, fun _ inside => inside⟩⟩
  | cons item rest inductionHypothesis =>
      unfold splitShared
      split
      · obtain ⟨shared, left⟩ := inductionHypothesis (others.map List.tail)
        refine ⟨?_, ?_⟩
        · intro other member
          rcases List.mem_cons.mp member with rfl | later
          · exact List.mem_cons_self
          · exact List.mem_cons_of_mem _ (shared other later)
        · intro items member
          obtain ⟨branch, among, inside⟩ := left items member
          rcases List.mem_cons.mp among with rfl | tail
          · exact ⟨item :: branch, List.mem_cons_self,
              fun other within => List.mem_cons_of_mem _ (inside other within)⟩
          · obtain ⟨whole, inOthers, rfl⟩ := List.mem_map.mp tail
            exact ⟨whole, List.mem_cons_of_mem _ inOthers,
              fun other within => List.mem_of_mem_tail (inside other within)⟩
      · exact ⟨fun other member => absurd member List.not_mem_nil,
          fun items member => ⟨items, member, fun _ inside => inside⟩⟩

/-- The ways of alternatives are those of the branches. -/
theorem itemsWays_alternatives
    (text : Array Char)
    (some : branches ≠ [])
    (written : WrittenBranches flags branches)
    (near : NearBranches branches) :
    itemsWays text (alternatives flags branches) = anyWays text branches := by
  unfold alternatives
  match branches with
  | [] => exact absurd rfl some
  | [items] =>
      funext start stop passes
      simp [anyWays]
  | first :: second :: others =>
      have members := splitShared_mem first (second :: others)
      have leftWritten : WrittenBranches flags (splitShared first (second :: others)).2 := by
        intro items member item inside
        obtain ⟨branch, among, within⟩ := members.2 items member
        exact written branch among item (within item inside)
      have leftNear : NearBranches (splitShared first (second :: others)).2 := by
        intro items member item inside
        obtain ⟨branch, among, within⟩ := members.2 items member
        exact near branch among item (within item inside)
      dsimp only
      rw [itemsWays_append, itemsWays_single, ways_choice_written text leftWritten leftNear]
      exact ((Node.reads_ways text).splitShared first (second :: others) written).symm

theorem tidy_choice
    (tidy : TidyBranches flags branches) :
    (Item.choice flags branches).Tidy flags := by
  cases are : membersOf branches with
  | none =>
      refine ⟨?_, ?_⟩
      · rw [choice_node are, bare_choice]
        intro node member
        obtain ⟨items, inside, rfl⟩ := List.mem_map.mp member
        exact (bare_ofItems items).mpr fun item within => (tidy items inside item within).bare
      · intro leaf kind
        unfold Item.choice at kind
        rw [are] at kind
        cases kind
  | some members =>
      refine ⟨?_, ?_⟩
      · rw [choice_node_members are]
        rfl
      · intro leaf kind
        unfold Item.choice at kind ⊢
        rw [are] at kind ⊢
        cases kind
        exact ⟨rfl, rfl⟩

/-- Alternatives of tidy branches are tidy. -/
theorem tidy_alternatives
    (tidy : TidyBranches flags branches) :
    ∀ item ∈ alternatives flags branches, item.Tidy flags := by
  unfold alternatives
  match branches with
  | [] =>
      intro item member
      cases member
  | [items] => exact fun item member => tidy items List.mem_cons_self item member
  | first :: second :: others =>
      have members := splitShared_mem first (second :: others)
      have leftTidy : TidyBranches flags (splitShared first (second :: others)).2 := by
        intro items member item inside
        obtain ⟨branch, among, within⟩ := members.2 items member
        exact tidy branch among item (within item inside)
      intro item member
      rcases List.mem_append.mp member with shared | choice
      · exact tidy first List.mem_cons_self item (members.1 item shared)
      · rw [List.mem_singleton.mp choice]
        exact tidy_choice leftTidy

end Choices

end NoticeScan.Regex
