import NoticeScan.Proofs.Closed
import NoticeScan.Proofs.Kin
import NoticeScan.Proofs.Paths

/-!
# Expressions that are made wider

When a blank in an expression is replaced by a run of blanks, the paths of the expression stay
paths of the new one, as long as the runs of blanks in the text are short. This is kept by whatever
an expression is made of: sequences, choices, groups, repeats that give rounds back, and conditions
on what is ahead.
-/

namespace NoticeScan.Regex

open NoticeScan.Text

/-- No more than so many blanks stand side by side in a text. -/
def ShortBlanks (bound : Nat) (text : Array Char) : Prop :=
  ∀ run, run <:+: text.toList → (∀ c ∈ run, isBlank c = true) → run.length ≤ bound

/-- Items that are tidy and in which nothing is wrong. -/
def FineItems (flags : Flags) (items : List Item) : Prop :=
  ∀ item ∈ items, item.Tidy flags ∧ item.late = none

/-- Items that hold no others. -/
def LeafItems (items : List Item) : Prop :=
  ∀ item ∈ items, ∃ leaf, item.kind = .leaf leaf

/-- Items that have all paths of others in texts with short runs of blanks. Where branches of single
characters become one class, the characters beyond the basic plane are compared in another way, so
wider items that hold no others are to be the same items. -/
structure Loosens (flags : Flags) (bound : Nat) (items wider : List Item) : Prop where
  fine : FineItems flags items
  fineWider : FineItems flags wider
  same : LeafItems wider → items = wider
  paths : ∀ text, ShortBlanks bound text → ∀ looping,
    ((Part.ofItems items).node.paths text looping).Le
      ((Part.ofItems wider).node.paths text looping)

/-! ## Alternatives -/

section Alternatives

variable {flags : Flags} {branches : List (List Item)}

/-- Alternatives of single items only are made of branches of such items. -/
theorem leafItems_of_alternatives
    (leaves : LeafItems (alternatives flags branches)) :
    ∀ branch ∈ branches, LeafItems branch := by
  unfold alternatives at leaves
  match branches with
  | [] => exact fun branch member => absurd member List.not_mem_nil
  | [items] =>
      intro branch member
      rw [List.mem_singleton.mp member]
      exact leaves
  | first :: second :: others =>
      dsimp only at leaves
      obtain ⟨leaf, kind⟩ := leaves _ (List.mem_append_right _ List.mem_cons_self)
      have merged : ∃ members, membersOf (splitShared first (second :: others)).2 = some members := by
        unfold Item.choice at kind
        cases are : membersOf (splitShared first (second :: others)).2 with
        | some members => exact ⟨members, rfl⟩
        | none =>
            rw [are] at kind
            cases kind
      obtain ⟨members, are⟩ := merged
      intro branch member item inside
      rcases splitShared_cover first (List.cons_ne_nil second others) branch member item inside with
        leaf | ⟨items, among, within⟩
      · exact leaf
      · exact leaf_of_membersOf are items among item within

/-- Every branch is meant by the alternatives, unless all branches are made of single items. -/
theorem Reads.le_alternatives
    {text : Array Char}
    {meaning : Node → Ways}
    (reads : Reads text meaning)
    (written : WrittenBranches flags branches) :
    (anyMeaning meaning branches).Le (meaning (Part.ofItems (alternatives flags branches)).node) ∨
      ∀ branch ∈ branches, LeafItems branch := by
  unfold alternatives
  match branches with
  | [] =>
      refine Or.inl ?_
      rintro start stop passes ⟨items, member, _⟩
      cases member
  | [items] =>
      refine Or.inl ?_
      rintro start stop passes ⟨branch, member, way⟩
      rw [List.mem_singleton.mp member] at way
      exact way
  | first :: second :: others =>
      cases are : membersOf (Regex.splitShared first (second :: others)).2 with
      | none =>
          refine Or.inl ?_
          dsimp only
          rw [reads.ofItems_append, reads.ofItems_single, reads.splitShared first _ written,
            reads.choice_node are]
          exact .refl _
      | some members =>
          refine Or.inr fun branch member item inside => ?_
          rcases splitShared_cover first (List.cons_ne_nil second others) branch member item
            inside with leaf | ⟨items, among, within⟩
          · exact leaf
          · exact leaf_of_membersOf are items among item within

end Alternatives

namespace Loosens

variable {flags inner : Flags} {bound : Nat} {items wider more widerMore : List Item}

theorem refl (fine : FineItems flags items) :
    Loosens flags bound items items :=
  ⟨fine, fine, fun _ => rfl, fun _ _ _ => .refl _⟩

theorem nil : Loosens flags bound [] [] :=
  .refl fun _ none => absurd none List.not_mem_nil

theorem append
    (first : Loosens flags bound items wider)
    (second : Loosens flags bound more widerMore) :
    Loosens flags bound (items ++ more) (wider ++ widerMore) where
  fine := List.forall_mem_append.mpr ⟨first.fine, second.fine⟩
  fineWider := List.forall_mem_append.mpr ⟨first.fineWider, second.fineWider⟩
  same := by
    intro leaves
    obtain ⟨left, right⟩ := List.forall_mem_append.mp leaves
    rw [first.same left, second.same right]
  paths := by
    intro text short looping
    have reads := Node.reads_paths text looping
    rw [reads.ofItems_append, reads.ofItems_append]
    exact (first.paths text short looping).andThen (second.paths text short looping)

/-- Branches that are each made wider, as one sequence. -/
theorem alternatives
    {pairs : List (List Item × List Item)}
    (some : pairs ≠ [])
    (each : ∀ pair ∈ pairs, Loosens flags bound pair.1 pair.2) :
    Loosens flags bound (alternatives flags (pairs.map Prod.fst))
      (Regex.alternatives flags (pairs.map Prod.snd)) := by
  have tidy : TidyBranches flags (pairs.map Prod.fst) :=
    List.forall_mem_map.mpr fun pair member item inside =>
      ((each pair member).fine item inside).1
  have tidyWider : TidyBranches flags (pairs.map Prod.snd) :=
    List.forall_mem_map.mpr fun pair member item inside =>
      ((each pair member).fineWider item inside).1
  have late := (late_alternatives tidy.written).mpr
    (List.forall_mem_map.mpr fun pair member item inside =>
      ((each pair member).fine item inside).2)
  have lateWider := (late_alternatives tidyWider.written).mpr
    (List.forall_mem_map.mpr fun pair member item inside =>
      ((each pair member).fineWider item inside).2)
  have same : (∀ branch ∈ pairs.map Prod.snd, LeafItems branch) →
      pairs.map Prod.fst = pairs.map Prod.snd := by
    intro leaves
    refine List.map_congr_left fun pair member => ?_
    exact (each pair member).same (leaves pair.2 (List.mem_map_of_mem member))
  refine ⟨?_, ?_, ?_, ?_⟩
  · exact fun item member => ⟨tidy_alternatives tidy item member, late item member⟩
  · exact fun item member => ⟨tidy_alternatives tidyWider item member, lateWider item member⟩
  · intro leaves
    rw [same (leafItems_of_alternatives leaves)]
  · intro text short looping
    have reads := Node.reads_paths text looping
    rcases reads.le_alternatives tidyWider.written with le | leaves
    · refine Ways.Le.trans (reads.alternatives_le (by simpa using some) tidy.written) ?_
      refine Ways.Le.trans ?_ le
      rintro start stop passes ⟨branch, member, way⟩
      obtain ⟨pair, inside, rfl⟩ := List.mem_map.mp member
      exact ⟨pair.2, List.mem_map_of_mem inside,
        (each pair inside).paths text short looping _ _ _ way⟩
    · rw [same leaves]
      exact .refl _

/-- A group with flags of its own. -/
theorem inScope
    (loosens : Loosens inner bound items wider) :
    Loosens flags bound [.scoped items] [.scoped wider] := by
  have fine : ∀ {list : List Item}, FineItems inner list → FineItems flags [Item.scoped list] := by
    intro list known
    refine List.forall_mem_singleton.mpr ⟨.of_other ?_ fun _ => by simp [Item.scoped], ?_⟩
    · exact (bare_ofItems list).mpr fun item member => (known item member).1.bare
    · exact (late_ofItems list).mpr fun item member => (known item member).2
  refine ⟨fine loosens.fine, fine loosens.fineWider, ?_, ?_⟩
  · intro leaves
    obtain ⟨leaf, kind⟩ := leaves _ List.mem_cons_self
    cases kind
  · intro text short looping
    have reads := Node.reads_paths text looping
    rw [reads.ofItems_single, reads.ofItems_single]
    exact loosens.paths text short looping

/-- A condition on what is ahead. -/
theorem ahead
    (loosens : Loosens flags bound items wider) :
    Loosens flags bound [.looking false false (.ofItems items)]
      [.looking false false (.ofItems wider)] := by
  have fine : ∀ {list : List Item}, FineItems flags list →
      FineItems flags [Item.looking false false (.ofItems list)] := by
    intro list known
    refine List.forall_mem_singleton.mpr ⟨.of_other ?_ fun _ => by simp [Item.looking], ?_⟩
    · exact (bare_ofItems list).mpr fun item member => (known item member).1.bare
    · exact (late_ofItems list).mpr fun item member => (known item member).2
  refine ⟨fine loosens.fine, fine loosens.fineWider, ?_, ?_⟩
  · intro leaves
    obtain ⟨leaf, kind⟩ := leaves _ List.mem_cons_self
    cases kind
  · intro text short looping
    have reads := Node.reads_paths text looping
    rw [reads.ofItems_single, reads.ofItems_single]
    rintro start stop passes ⟨sees, rfl, rfl⟩
    obtain ⟨within, seen, found, way⟩ := sees.mpr rfl
    exact ⟨⟨fun _ => rfl, fun _ =>
      ⟨within, seen, found, loosens.paths text short looping _ _ _ way⟩⟩, rfl, rfl⟩

/-- A repeat that gives rounds back. -/
theorem repeating
    (loosens : Loosens inner bound items wider)
    {greed : Greed}
    (gives : greed ≠ .possessive)
    (noTemplate : flags.template = false)
    {low high : Nat}
    (ordered : low ≤ high) :
    Loosens flags bound [.repeating flags greed low high (.ofItems items)]
      [.repeating flags greed low high (.ofItems wider)] := by
  have fine : ∀ {list : List Item}, FineItems inner list →
      FineItems flags [Item.repeating flags greed low high (.ofItems list)] := by
    intro list known
    refine List.forall_mem_singleton.mpr ⟨.of_other ?_ fun _ => by simp [Item.repeating], ?_⟩
    · exact (bare_ofItems list).mpr fun item member => (known item member).1.bare
    · have late : (Item.repeating flags greed low high (.ofItems list)).late =
          if flags.template then some (.templateRepeat greed) else (Part.ofItems list).late := rfl
      rw [late, noTemplate, if_neg Bool.false_ne_true]
      exact (late_ofItems list).mpr fun item member => (known item member).2
  refine ⟨fine loosens.fine, fine loosens.fineWider, ?_, ?_⟩
  · intro leaves
    obtain ⟨leaf, kind⟩ := leaves _ List.mem_cons_self
    cases kind
  · intro text short looping
    have reads := Node.reads_paths text looping
    have allowed : (if high = endless then none else some high : Option Nat).all (low ≤ ·) = true := by
      split
      · rfl
      · simpa using ordered
    rw [reads.ofItems_single, reads.ofItems_single]
    unfold Item.repeating
    dsimp only
    rw [Node.paths_repeated text looping gives, Node.paths_repeated text looping gives]
    rintro start stop passes ⟨-, way⟩
    exact ⟨fun _ => allowed, (loosens.paths text short true).between _ _ _ _ _ way⟩

end Loosens

/-! ## Blanks -/

/-- Whether a character is one of those that blanks are replaced by. -/
def isSpace (flags : Flags) (c : Char) : Bool :=
  Category.space.holds flags.ascii c.toNat

theorem isBlank_of_isSpace
    {flags : Flags}
    {c : Char}
    (space : isSpace flags c = true) :
    isBlank c = true := by
  unfold isSpace Category.holds at space
  cases ascii : flags.ascii with
  | false =>
      rw [ascii] at space
      exact space
  | true =>
      rw [ascii] at space
      simp only [if_true, Bool.or_eq_true, Bool.and_eq_true, beq_iff_eq,
        decide_eq_true_eq] at space
      unfold isBlank isBlankPoint
      rw [if_pos (by omega)]
      simp only [Bool.or_eq_true, Bool.and_eq_true, beq_iff_eq, decide_eq_true_eq]
      omega

/-- Between two positions there are only blanks. -/
def SpaceBetween (flags : Flags) (text : Array Char) (start stop : Nat) : Prop :=
  start ≤ stop ∧ ∀ pos, start ≤ pos → pos < stop →
    ∃ c, text[pos]? = some c ∧ isSpace flags c = true

namespace SpaceBetween

variable {flags : Flags} {text : Array Char} {start middle stop : Nat}

theorem trans
    (first : SpaceBetween flags text start middle)
    (second : SpaceBetween flags text middle stop) :
    SpaceBetween flags text start stop := by
  refine ⟨Nat.le_trans first.1 second.1, fun pos after before => ?_⟩
  by_cases early : pos < middle
  · exact first.2 pos after early
  · exact second.2 pos (Nat.le_of_not_lt early) before

/-- A run of blanks is short where all of them are. -/
theorem length_le
    {bound : Nat}
    (space : SpaceBetween flags text start stop)
    (short : ShortBlanks bound text) :
    stop - start ≤ bound := by
  rcases Nat.eq_or_lt_of_le space.1 with rfl | less
  · omega
  · obtain ⟨c, last, -⟩ := space.2 (stop - 1) (by omega) (by omega)
    obtain ⟨inside, -⟩ := Array.getElem?_eq_some_iff.mp last
    have length : ((text.toList.drop start).take (stop - start)).length = stop - start := by
      rw [List.length_take, List.length_drop, Array.length_toList]
      omega
    rw [← length]
    apply short
    · exact (List.take_prefix _ _).isInfix.trans (List.drop_suffix _ _).isInfix
    · intro d member
      obtain ⟨i, small, rfl⟩ := List.mem_iff_getElem.mp member
      rw [length] at small
      obtain ⟨e, here, isSpace⟩ := space.2 (start + i) (by omega) (by omega)
      obtain ⟨inText, same⟩ := Array.getElem?_eq_some_iff.mp here
      rw [List.getElem_take, List.getElem_drop, Array.getElem_toList, same]
      exact isBlank_of_isSpace isSpace

/-- A test that blanks pass takes a run of them. -/
theorem times
    {test : CharTest}
    (accepts : ∀ c, isSpace flags c = true → test.passes c = true)
    {count : Nat}
    (space : SpaceBetween flags text start (start + count)) :
    Ways.times count (.oneOf text test) start (start + count) [] := by
  induction count generalizing start with
  | zero => exact ⟨rfl, rfl⟩
  | succ count inductionHypothesis =>
      obtain ⟨c, here, first⟩ := space.2 start (Nat.le_refl _) (by omega)
      have shifted : start + (count + 1) = start + 1 + count := by omega
      rw [shifted] at space ⊢
      have rest : SpaceBetween flags text (start + 1) (start + 1 + count) :=
        ⟨by omega, fun pos after before => space.2 pos (by omega) before⟩
      exact ⟨start + 1, [], [], ⟨⟨c, here, accepts c first⟩, rfl, rfl⟩,
        inductionHypothesis rest, rfl⟩

end SpaceBetween

section Blanks

variable {flags : Flags} {run : List Char}

variable {members : List Member} {bound low : Nat} {greed : Greed}

end Blanks

end NoticeScan.Regex
