import NoticeScan.Proofs.Items

/-!
# What items bring along

Of the items that a text adds to an expression it matters later where the borders of their groups
lie, which ways they have, and that nothing is wrong with them that shows only at the end.
-/

namespace NoticeScan.Regex

/-! ## Ways that are wide enough -/

/-- All ways of one kind are ways of another kind. -/
def Ways.Le (first second : Ways) : Prop :=
  ∀ start stop passes, first start stop passes → second start stop passes

/-- Any way that passes no group. -/
def Ways.silent : Ways := fun _ _ passes =>
  passes = []

/-- Any way on which every pass lies between the two ends. -/
def Ways.enclosing : Ways := fun start stop passes =>
  start ≤ stop ∧ ∀ pass ∈ passes, start ≤ pass.start ∧ pass.start ≤ pass.stop ∧ pass.stop ≤ stop

namespace Ways

variable {first second third fourth : Ways}

theorem Le.refl (ways : Ways) : ways.Le ways :=
  fun _ _ _ way => way

theorem Le.trans
    (one : first.Le second)
    (other : second.Le third) :
    first.Le third :=
  fun start stop passes way => other start stop passes (one start stop passes way)

theorem Le.andThen
    (one : first.Le third)
    (other : second.Le fourth) :
    (first.andThen second).Le (third.andThen fourth) := by
  rintro start stop passes ⟨middle, before, after, left, right, rfl⟩
  exact ⟨middle, before, after, one _ _ _ left, other _ _ _ right, rfl⟩

theorem Le.either
    (one : first.Le third)
    (other : second.Le third) :
    (first.either second).Le third := by
  rintro start stop passes (left | right)
  · exact one _ _ _ left
  · exact other _ _ _ right

theorem Le.times
    (one : first.Le second)
    (count : Nat) :
    (times count first).Le (times count second) := by
  induction count with
  | zero => exact .refl _
  | succ count inductionHypothesis => exact one.andThen inductionHypothesis

theorem Le.between
    (one : first.Le second)
    (low : Nat)
    (high : Option Nat) :
    (between low high first).Le (between low high second) := by
  rintro start stop passes ⟨count, least, most, rounds⟩
  exact ⟨count, least, most, one.times count _ _ _ rounds⟩

theorem silent_andThen : (silent.andThen silent).Le silent := by
  rintro start stop passes ⟨middle, before, after, rfl, rfl, rfl⟩
  rfl

/-- Ways of a kind that can be put together, and to which no way at all belongs, can be put
together in any number. -/
theorem times_le
    {ways : Ways}
    (still : stay.Le ways)
    (closed : (ways.andThen ways).Le ways)
    (count : Nat) :
    (times count ways).Le ways := by
  induction count with
  | zero => exact still
  | succ count inductionHypothesis =>
      exact ((Le.refl ways).andThen inductionHypothesis).trans closed

theorem between_le
    {ways : Ways}
    (still : stay.Le ways)
    (closed : (ways.andThen ways).Le ways)
    (low : Nat)
    (high : Option Nat) :
    (between low high ways).Le ways := by
  rintro start stop passes ⟨count, -, -, rounds⟩
  exact times_le still closed count _ _ _ rounds

theorem stay_silent : stay.Le silent :=
  fun _ _ _ way => way.2

theorem stay_enclosing : stay.Le enclosing := by
  rintro start stop passes ⟨rfl, rfl⟩
  exact ⟨Nat.le_refl stop, List.forall_mem_nil _⟩

theorem enclosing_andThen : (enclosing.andThen enclosing).Le enclosing := by
  rintro start stop passes ⟨middle, before, after, ⟨le, first⟩, ⟨le', second⟩, rfl⟩
  refine ⟨Nat.le_trans le le', List.forall_mem_append.mpr ⟨?_, ?_⟩⟩
  · intro pass member
    obtain ⟨low, ordered, high⟩ := first pass member
    exact ⟨low, ordered, Nat.le_trans high le'⟩
  · intro pass member
    obtain ⟨low, ordered, high⟩ := second pass member
    exact ⟨Nat.le_trans le low, ordered, high⟩

/-- A way in a group is passed as a whole. -/
theorem inGroup_enclosing
    (index : Nat) :
    (inGroup index enclosing).Le enclosing := by
  rintro start stop passes ⟨inner, ⟨le, encloses⟩, rfl⟩
  exact ⟨le, List.forall_mem_append.mpr
    ⟨encloses, List.forall_mem_singleton.mpr ⟨Nat.le_refl start, le, Nat.le_refl stop⟩⟩⟩

theorem Le.inGroup
    (one : first.Le second)
    (index : Nat) :
    (inGroup index first).Le (inGroup index second) := by
  rintro start stop passes ⟨inner, way, rfl⟩
  exact ⟨inner, one _ _ _ way, rfl⟩

end Ways

/-- An expression without groups passes none. -/
theorem Node.silent_of_bare
    {node : Node}
    (bare : node.bare = true)
    (text : Array Char) :
    (node.ways text).Le .silent := by
  induction node with
  | empty =>
      rintro start stop passes ⟨-, none⟩
      exact none
  | never => exact fun _ _ _ way => way.elim
  | char test =>
      rintro start stop passes ⟨-, -, none⟩
      exact none
  | anchor place =>
      rintro start stop passes ⟨-, -, none⟩
      exact none
  | seq first second ofFirst ofSecond =>
      obtain ⟨left, right⟩ := Bool.and_eq_true_iff.mp bare
      exact ((ofFirst left).andThen (ofSecond right)).trans (Ways.silent_andThen)
  | alt first second ofFirst ofSecond =>
      obtain ⟨left, right⟩ := Bool.and_eq_true_iff.mp bare
      exact (ofFirst left).either (ofSecond right)
  | group index body _ => cases bare
  | again index folding =>
      rintro start stop passes ⟨-, none⟩
      exact none
  | look behind negated body ofBody =>
      rintro start stop passes ⟨-, inside⟩
      split at inside
      · exact inside
      · obtain ⟨seen, way⟩ := inside
        exact ofBody bare _ seen _ way
  | atomic body ofBody => exact ofBody bare
  | repeated greed low high body ofBody =>
      exact ((ofBody bare).between low high).trans
        (Ways.between_le Ways.stay_silent Ways.silent_andThen low high)
  | branch index yes no ofYes ofNo =>
      obtain ⟨left, right⟩ := Bool.and_eq_true_iff.mp bare
      exact (ofYes left).either (ofNo right)

/-- An expression without groups has no pass to enclose. -/
theorem Node.enclosing_of_bare
    {node : Node}
    (bare : node.bare = true)
    (text : Array Char) :
    (node.ways text).Le .enclosing := by
  intro start stop passes way
  have none : passes = [] := Node.silent_of_bare bare text _ _ _ way
  rw [none]
  exact ⟨node.ways_le text _ _ _ way, List.forall_mem_nil _⟩

/-! ## Faults that show at the end -/

theorem foldl_firstFault
    (faults : List (Option Fault))
    (first : Option Fault) :
    faults.foldl firstFault first = none ↔ first = none ∧ ∀ fault ∈ faults, fault = none := by
  induction faults generalizing first with
  | nil => simp
  | cons fault rest inductionHypothesis =>
      rw [List.foldl_cons, inductionHypothesis, List.forall_mem_cons, ← and_assoc]
      cases first with
      | none => simp [firstFault]
      | some other => simp [firstFault]

theorem late_ofItems
    (items : List Item) :
    (Part.ofItems items).late = none ↔ ∀ item ∈ items, item.late = none := by
  unfold Part.ofItems Part.sequence
  dsimp only
  rw [foldl_firstFault]
  simp

/-- What branches share are leaves, so every other item of a branch is left of it. -/
theorem splitShared_cover
    (first : List Item)
    {others : List (List Item)}
    (some : others ≠ []) :
    ∀ branch ∈ first :: others, ∀ item ∈ branch,
      (∃ leaf, item.kind = .leaf leaf) ∨
        ∃ items ∈ (splitShared first others).2, item ∈ items := by
  induction first generalizing others with
  | nil =>
      unfold splitShared
      exact fun branch member item inside => Or.inr ⟨branch, member, inside⟩
  | cons head rest inductionHypothesis =>
      unfold splitShared
      split
      · rename_i alike
        have tails : others.map List.tail ≠ [] := fun none => some (List.map_eq_nil_iff.mp none)
        have cover := inductionHypothesis tails
        intro branch member item inside
        rcases List.mem_cons.mp member with rfl | among
        · rcases List.mem_cons.mp inside with rfl | later
          · obtain ⟨next, more, rfl⟩ := List.exists_cons_of_ne_nil some
            obtain ⟨_, _, leaf, _, itemLeaf, _⟩ :=
              startsAlike_iff.mp (List.all_eq_true.mp alike next List.mem_cons_self)
            exact Or.inl ⟨leaf, itemLeaf⟩
          · exact cover rest List.mem_cons_self item later
        · obtain ⟨other, tail, leaf, rfl, _, otherLeaf⟩ :=
            startsAlike_iff.mp (List.all_eq_true.mp alike branch among)
          rcases List.mem_cons.mp inside with rfl | later
          · exact Or.inl ⟨leaf, otherLeaf⟩
          · exact cover tail (List.mem_cons_of_mem _ (List.mem_map.mpr ⟨_, among, rfl⟩)) item
              later
      · exact fun branch member item inside => Or.inr ⟨branch, member, inside⟩

section Alternatives

variable {flags : Flags} {branches : List (List Item)}

theorem leaf_of_membersOf
    {members : List Member}
    (are : membersOf branches = some members) :
    ∀ items ∈ branches, ∀ item ∈ items, ∃ leaf, item.kind = .leaf leaf := by
  induction branches generalizing members with
  | nil => exact fun items member => absurd member List.not_mem_nil
  | cons items rest inductionHypothesis =>
      unfold membersOf at are
      split at are
      · rename_i none
        cases none
      · rename_i item others same
        cases same
        split at are
        · rename_i x more kind others
          intro branch member item inside
          rcases List.mem_cons.mp member with rfl | later
          · cases List.mem_singleton.mp inside
            exact ⟨_, kind⟩
          · exact inductionHypothesis others branch later item inside
        · rename_i some more kind others
          intro branch member item inside
          rcases List.mem_cons.mp member with rfl | later
          · cases List.mem_singleton.mp inside
            exact ⟨_, kind⟩
          · exact inductionHypothesis others branch later item inside
        · cases are
      · cases are

theorem late_choice
    (written : WrittenBranches flags branches) :
    (Item.choice flags branches).late = none ↔
      ∀ items ∈ branches, ∀ item ∈ items, item.late = none := by
  unfold Item.choice
  cases are : membersOf branches with
  | some members =>
      constructor
      · intro _ items member item inside
        obtain ⟨leaf, kind⟩ := leaf_of_membersOf are items member item inside
        exact (written items member item inside leaf kind).2
      · exact fun _ => rfl
  | none =>
      dsimp only
      unfold Part.choice
      dsimp only
      rw [foldl_firstFault]
      simp [late_ofItems]

/-- Nothing is wrong with alternatives if nothing is wrong with any item of the branches. -/
theorem late_alternatives
    (written : WrittenBranches flags branches) :
    (∀ item ∈ alternatives flags branches, item.late = none) ↔
      ∀ items ∈ branches, ∀ item ∈ items, item.late = none := by
  unfold alternatives
  match branches with
  | [] => simp
  | [items] => simp
  | first :: second :: others =>
      have members := splitShared_mem first (second :: others)
      have cover := splitShared_cover first (List.cons_ne_nil second others)
      have leftWritten : WrittenBranches flags (splitShared first (second :: others)).2 := by
        intro items member item inside
        obtain ⟨branch, among, within⟩ := members.2 items member
        exact written branch among item (within item inside)
      dsimp only
      constructor
      · intro fine items member item inside
        have choiceLate := fine (.choice flags (splitShared first (second :: others)).2)
          (List.mem_append_right _ List.mem_cons_self)
        rcases cover items member item inside with ⟨leaf, kind⟩ | ⟨branch, among, within⟩
        · exact (written items member item inside leaf kind).2
        · exact (late_choice leftWritten).mp choiceLate branch among item within
      · intro fine item member
        rcases List.mem_append.mp member with shared | choice
        · exact fine first List.mem_cons_self item (members.1 item shared)
        · rw [List.mem_singleton.mp choice]
          apply (late_choice leftWritten).mpr
          intro branch among item within
          obtain ⟨whole, inside, same⟩ := members.2 branch among
          exact fine whole inside item (same item within)

/-! ## Ways of alternatives -/

section Meaning

variable {text : Array Char} {meaning : Node → Ways} (reads : Reads text meaning)

include reads

/-- What a class of the members of branches takes, one of the branches takes. -/
theorem Reads.membersOf_le
    {members : List Member}
    (are : membersOf branches = some members)
    (written : WrittenBranches flags branches) :
    (Ways.oneOf text (.ofMembers flags false members)).Le (anyMeaning meaning branches) := by
  induction branches generalizing members with
  | nil =>
      cases are
      rintro start stop passes ⟨⟨c, _, passes⟩, _⟩
      cases passes
  | cons items rest inductionHypothesis =>
      have restWritten : WrittenBranches flags rest :=
        fun branch member => written branch (List.mem_cons_of_mem _ member)
      have either : ∀ (some : List Member) (item : Item) (more : List Member),
          items = [item] →
          (∀ c, (CharTest.ofMembers flags false some).passes c = true →
            ∃ test, item.node = .char test ∧ test.passes c = true) →
          membersOf rest = .some more →
          (Ways.oneOf text (.ofMembers flags false (some ++ more))).Le
            (anyMeaning meaning (items :: rest)) := by
        rintro some item more rfl taken others start stop passes ⟨⟨c, here, passing⟩, ends, none⟩
        rcases (passes_ofMembers_append flags some more c).mp passing with one | other
        · obtain ⟨test, node, passes⟩ := taken c one
          refine ⟨[item], List.mem_cons_self, ?_⟩
          rw [reads.ofItems_single, node, reads.char]
          exact ⟨⟨c, here, passes⟩, ends, none⟩
        · obtain ⟨branch, member, way⟩ :=
            inductionHypothesis others restWritten start stop passes ⟨⟨c, here, other⟩, ends, none⟩
          exact ⟨branch, List.mem_cons_of_mem _ member, way⟩
      cases items with
      | nil => cases are
      | cons item others =>
          cases others with
          | cons next more => cases are
          | nil =>
              have itemWritten := written _ List.mem_cons_self item List.mem_cons_self
              unfold membersOf at are
              cases others : membersOf rest with
              | none =>
                  rw [others] at are
                  split at are <;> simp_all
              | some more =>
                  rw [others] at are
                  split at are
                  · rename_i x _ kind same
                    cases same
                    cases are
                    exact either [.point x] item more rfl
                      (fun c passing =>
                        ⟨_, (itemWritten _ kind).1, passes_of_passes_point flags passing⟩)
                      others
                  · rename_i some _ kind same
                    cases same
                    cases are
                    exact either some item more rfl
                      (fun c passing => ⟨_, (itemWritten _ kind).1, passing⟩) others
                  · cases are

theorem Reads.choice_le
    (written : WrittenBranches flags branches) :
    (meaning (Item.choice flags branches).node).Le (anyMeaning meaning branches) := by
  cases are : membersOf branches with
  | none =>
      rw [reads.choice_node are]
      exact .refl _
  | some members =>
      rw [choice_node_members are, reads.char]
      refine Ways.Le.trans ?_ (reads.membersOf_le are written)
      rintro start stop passes ⟨⟨c, here, passing⟩, ends⟩
      refine ⟨⟨c, here, ?_⟩, ends⟩
      rw [passes_ofMembers] at passing ⊢
      simpa only [List.mem_eraseDups] using passing

end Meaning

theorem written_splitShared
    {first : List Item}
    {others : List (List Item)}
    (written : WrittenBranches flags (first :: others)) :
    WrittenBranches flags (splitShared first others).2 := by
  intro items member item inside
  obtain ⟨branch, among, within⟩ := (splitShared_mem first others).2 items member
  exact written branch among item (within item inside)

/-- Alternatives mean nothing that no branch means. -/
theorem Reads.alternatives_le
    {text : Array Char}
    {meaning : Node → Ways}
    (reads : Reads text meaning)
    (some : branches ≠ [])
    (written : WrittenBranches flags branches) :
    (meaning (Part.ofItems (alternatives flags branches)).node).Le
      (anyMeaning meaning branches) := by
  unfold alternatives
  match branches with
  | [] => exact absurd rfl some
  | [items] => exact fun start stop passes way => ⟨items, List.mem_cons_self, way⟩
  | first :: second :: others =>
      dsimp only
      rw [reads.ofItems_append, reads.ofItems_single, reads.splitShared first _ written]
      exact (Ways.Le.refl _).andThen (reads.choice_le (written_splitShared written))

/-- The ways of alternatives are ways of the branches. -/
theorem alternatives_le
    (text : Array Char)
    (some : branches ≠ [])
    (written : WrittenBranches flags branches) :
    (itemsWays text (alternatives flags branches)).Le (anyWays text branches) :=
  (Node.reads_ways text).alternatives_le some written

theorem written_alternatives
    (written : WrittenBranches flags branches) :
    ∀ item ∈ alternatives flags branches, item.Written flags := by
  unfold alternatives
  match branches with
  | [] => exact fun item member => absurd member List.not_mem_nil
  | [items] => exact fun item member => written items List.mem_cons_self item member
  | first :: second :: others =>
      intro item member
      rcases List.mem_append.mp member with shared | choice
      · exact written first List.mem_cons_self item
          ((splitShared_mem first (second :: others)).1 item shared)
      · rw [List.mem_singleton.mp choice]
        intro leaf kind
        unfold Item.choice at kind ⊢
        cases are : membersOf (splitShared first (second :: others)).2 with
        | none =>
            rw [are] at kind
            cases kind
        | some members =>
            rw [are] at kind
            cases kind
            exact ⟨rfl, rfl⟩

end Alternatives

/-! ## Borders of alternatives -/

theorem fits_sequence_cons
    {node : Node}
    {rest : List Node}
    {low high : Nat} :
    (Node.sequence (node :: rest)).Fits low high ↔
      ∃ middle, node.Fits low middle ∧ (Node.sequence rest).Fits middle high := by
  cases rest with
  | nil =>
      constructor
      · exact fun fits => ⟨high, fits, Nat.le_refl _⟩
      · rintro ⟨middle, fits, le⟩
        exact fits.mono (Nat.le_refl _) le
  | cons next others => exact Iff.rfl

theorem fits_ofItems_cons
    {item : Item}
    {rest : List Item}
    {low high : Nat} :
    (Part.ofItems (item :: rest)).node.Fits low high ↔
      ∃ middle, item.node.Fits low middle ∧ (Part.ofItems rest).node.Fits middle high :=
  fits_sequence_cons

theorem fits_ofItems_append
    {first second : List Item}
    {low middle high : Nat}
    (one : (Part.ofItems first).node.Fits low middle)
    (other : (Part.ofItems second).node.Fits middle high) :
    (Part.ofItems (first ++ second)).node.Fits low high := by
  induction first generalizing low with
  | nil => exact other.mono one (Nat.le_refl _)
  | cons item rest inductionHypothesis =>
      obtain ⟨between, here, later⟩ := fits_ofItems_cons.mp one
      exact fits_ofItems_cons.mpr ⟨between, here, inductionHypothesis later⟩

theorem fits_choice
    {nodes : List Node}
    {low high : Nat}
    (le : low ≤ high)
    (each : ∀ node ∈ nodes, node.Fits low high) :
    (Node.choice nodes).Fits low high := by
  induction nodes with
  | nil => exact le
  | cons node rest inductionHypothesis =>
      cases rest with
      | nil => exact each node List.mem_cons_self
      | cons next others =>
          exact ⟨each node List.mem_cons_self,
            inductionHypothesis fun other member => each other (List.mem_cons_of_mem _ member)⟩

section Borders

variable {flags : Flags} {low high : Nat}

/-- What is left of branches behind what they share fits where they did. -/
theorem fits_splitShared
    (first : List Item)
    (others : List (List Item))
    (fits : ∀ items ∈ first :: others, (Part.ofItems items).node.Fits low high) :
    ∀ items ∈ (splitShared first others).2, (Part.ofItems items).node.Fits low high := by
  induction first generalizing others with
  | nil =>
      unfold splitShared
      exact fits
  | cons item rest inductionHypothesis =>
      unfold splitShared
      split
      · refine inductionHypothesis (others.map List.tail) ?_
        have tail : ∀ items ∈ (item :: rest) :: others,
            (Part.ofItems items.tail).node.Fits low high := by
          intro items member
          have whole := fits items member
          cases items with
          | nil => exact whole
          | cons head more =>
              obtain ⟨middle, here, later⟩ := fits_ofItems_cons.mp whole
              exact later.mono here.le (Nat.le_refl _)
        intro items member
        rcases List.mem_cons.mp member with rfl | among
        · exact tail _ List.mem_cons_self
        · obtain ⟨branch, inside, rfl⟩ := List.mem_map.mp among
          exact tail branch (List.mem_cons_of_mem _ inside)
      · exact fits

theorem shared_leaves
    (first : List Item)
    {others : List (List Item)}
    (some : others ≠ []) :
    ∀ item ∈ (splitShared first others).1, ∃ leaf, item.kind = .leaf leaf := by
  induction first generalizing others with
  | nil =>
      unfold splitShared
      exact fun item member => absurd member List.not_mem_nil
  | cons head rest inductionHypothesis =>
      unfold splitShared
      split
      · rename_i alike
        intro item member
        rcases List.mem_cons.mp member with rfl | later
        · obtain ⟨next, more, rfl⟩ := List.exists_cons_of_ne_nil some
          obtain ⟨_, _, leaf, _, itemLeaf, _⟩ :=
            startsAlike_iff.mp (List.all_eq_true.mp alike next List.mem_cons_self)
          exact ⟨leaf, itemLeaf⟩
        · exact inductionHypothesis (fun none => some (List.map_eq_nil_iff.mp none)) item later
      · exact fun item member => absurd member List.not_mem_nil

/-- Alternatives fit where all branches do. -/
theorem fits_alternatives
    {branches : List (List Item)}
    (le : low ≤ high)
    (written : WrittenBranches flags branches)
    (fits : ∀ items ∈ branches, (Part.ofItems items).node.Fits low high) :
    (Part.ofItems (alternatives flags branches)).node.Fits low high := by
  unfold alternatives
  match branches with
  | [] => exact le
  | [items] => exact fits items List.mem_cons_self
  | first :: second :: others =>
      have bare : (Part.ofItems (splitShared first (second :: others)).1).node.bare = true := by
        apply (bare_ofItems _).mpr
        intro item member
        obtain ⟨leaf, kind⟩ := shared_leaves first (List.cons_ne_nil second others) item member
        have inFirst := (splitShared_mem first (second :: others)).1 item member
        rw [(written first List.mem_cons_self item inFirst leaf kind).1]
        exact leaf.bare_node flags
      have left := fits_splitShared first (second :: others) fits
      dsimp only
      refine fits_ofItems_append (Node.fits_of_bare bare (Nat.le_refl low)) ?_
      refine fits_ofItems_cons.mpr ⟨high, ?_, Nat.le_refl high⟩
      cases are : membersOf (splitShared first (second :: others)).2 with
      | some members =>
          rw [choice_node_members are]
          exact le
      | none =>
          rw [choice_node are]
          apply fits_choice le
          intro node member
          obtain ⟨items, among, rfl⟩ := List.mem_map.mp member
          exact left items among

end Borders

/-! ## All of it together -/

/-- Items under given flags have groups with borders in a range and no ways but the given ones, and
nothing is wrong with them. -/
structure Brings (flags : Flags) (low high : Nat) (ways : Array Char → Ways) (items : List Item) :
    Prop where
  written : ∀ item ∈ items, item.Written flags
  late : ∀ item ∈ items, item.late = none
  fits : (Part.ofItems items).node.Fits low high
  takes : ∀ text, (itemsWays text items).Le (ways text)

namespace Brings

variable {flags inner : Flags} {low middle high : Nat} {ways others : Array Char → Ways}
  {items more : List Item}

theorem le
    (brings : Brings flags low high ways items) :
    low ≤ high :=
  brings.fits.le

theorem imp
    (brings : Brings flags low high ways items)
    (wider : ∀ text, (ways text).Le (others text)) :
    Brings flags low high others items where
  written := brings.written
  late := brings.late
  fits := brings.fits
  takes text := (brings.takes text).trans (wider text)

theorem mono
    {lower higher : Nat}
    (brings : Brings flags low high ways items)
    (below : lower ≤ low)
    (above : high ≤ higher) :
    Brings flags lower higher ways items where
  written := brings.written
  late := brings.late
  fits := brings.fits.mono below above
  takes := brings.takes

/-- Items without groups bring none along. -/
theorem of_tidy
    (tidy : ∀ item ∈ items, item.Tidy flags)
    (late : ∀ item ∈ items, item.late = none)
    (low : Nat) :
    Brings flags low low (fun _ => .enclosing) items where
  written item member := (tidy item member).written
  late := late
  fits :=
    Node.fits_of_bare ((bare_ofItems items).mpr fun item member => (tidy item member).bare)
      (Nat.le_refl low)
  takes text :=
    Node.enclosing_of_bare ((bare_ofItems items).mpr fun item member => (tidy item member).bare)
      text

theorem append
    (one : Brings flags low middle ways items)
    (other : Brings flags middle high others more) :
    Brings flags low high (fun text => (ways text).andThen (others text)) (items ++ more) where
  written item member := by
    rcases List.mem_append.mp member with early | late
    · exact one.written item early
    · exact other.written item late
  late item member := by
    rcases List.mem_append.mp member with early | late
    · exact one.late item early
    · exact other.late item late
  fits := fits_ofItems_append one.fits other.fits
  takes text := by
    rw [itemsWays_append]
    exact (one.takes text).andThen (other.takes text)

theorem ofBranches
    {branches : List (List Item)}
    (some : branches ≠ [])
    (each : ∀ branch ∈ branches, Brings flags low high ways branch) :
    Brings flags low high ways (alternatives flags branches) := by
  have written : WrittenBranches flags branches :=
    fun branch member => (each branch member).written
  obtain ⟨branch, member⟩ := List.exists_mem_of_ne_nil branches some
  refine ⟨written_alternatives written, ?_, ?_, ?_⟩
  · exact (late_alternatives written).mpr fun branch member => (each branch member).late
  · exact fits_alternatives (each branch member).le written
      fun branch member => (each branch member).fits
  · intro text
    refine (alternatives_le text some written).trans ?_
    rintro start stop passes ⟨branch, member, way⟩
    exact (each branch member).takes text start stop passes way

/-- A group that captures what items without groups take. -/
theorem captured
    (tidy : ∀ item ∈ items, item.Tidy inner)
    (late : ∀ item ∈ items, item.late = none)
    (count : Nat) :
    Brings flags (2 * count) (2 * (count + 1))
      (fun text => .inGroup (count + 1) (itemsWays text items))
      [.captured (count + 1) items] where
  written item member := by
    cases List.mem_singleton.mp member
    exact fun leaf kind => by cases kind
  late item member := by
    cases List.mem_singleton.mp member
    exact (late_ofItems items).mpr late
  fits := by
    refine ⟨Nat.succ_pos count, ?_, ?_, ?_⟩
    · simp [startBorder]
    · simp [startBorder, Nat.mul_add]
    · exact (bare_ofItems items).mpr fun item member => (tidy item member).bare
  takes text := by
    rw [itemsWays_single]
    exact .refl _

/-- Items with flags of their own. -/
theorem inScope
    (brings : Brings inner low high ways items) :
    Brings flags low high ways [.scoped items] where
  written item member := by
    cases List.mem_singleton.mp member
    exact fun leaf kind => by cases kind
  late item member := by
    cases List.mem_singleton.mp member
    exact (late_ofItems items).mpr brings.late
  fits := brings.fits
  takes text := by
    rw [itemsWays_single]
    exact brings.takes text

/-- A repeat that gives rounds back. -/
theorem repeating
    (brings : Brings inner low high ways items)
    (terse : inner.template = false)
    (least most : Nat) :
    Brings flags low high
      (fun text => .between least (if most = endless then none else some most) (ways text))
      [.repeating inner .greedy least most (.ofItems items)] where
  written item member := by
    cases List.mem_singleton.mp member
    exact fun leaf kind => by cases kind
  late item member := by
    cases List.mem_singleton.mp member
    unfold Item.repeating
    rw [terse]
    exact (late_ofItems items).mpr brings.late
  fits := brings.fits
  takes text := by
    rw [itemsWays_single]
    exact (brings.takes text).between _ _

end Brings

end NoticeScan.Regex
