import NoticeScan.Proofs.Assembly
import NoticeScan.Proofs.Demands

/-!
# Pieces that take a character

An expression that is put together from pieces takes at least one character if one of its pieces
does. So it is known from the pieces that it matches nothing that is empty, and nothing at the end
of a text.
-/

namespace NoticeScan.Regex

/-- Every way of some items takes a character: it moves on, and one stands where it starts. -/
def Takes (items : List Item) : Prop :=
  ∀ text start stop passes, itemsWays text items start stop passes →
    start < stop ∧ start < text.size

section Items

variable {flags : Flags} {items more : List Item}

theorem takes_of_demands
    (demands : (Part.ofItems items).node.demands (fun _ => true) = true) :
    Takes items :=
  fun text _ _ _ way =>
    ⟨Node.moves_of_demands text demands way, (Node.meets_of_demands text demands way).lt_size⟩

theorem Takes.append_left
    (takes : Takes items)
    (more : List Item) :
    Takes (items ++ more) := by
  intro text start stop passes way
  rw [itemsWays_append] at way
  obtain ⟨middle, before, after, one, other, -⟩ := way
  obtain ⟨moves, inside⟩ := takes text _ _ _ one
  exact ⟨Nat.lt_of_lt_of_le moves (Node.ways_le text _ _ _ _ other), inside⟩

theorem Takes.append_right
    (takes : Takes more)
    (items : List Item) :
    Takes (items ++ more) := by
  intro text start stop passes way
  rw [itemsWays_append] at way
  obtain ⟨middle, before, after, one, other, -⟩ := way
  have forward := Node.ways_le text _ _ _ _ one
  obtain ⟨moves, inside⟩ := takes text _ _ _ other
  exact ⟨Nat.lt_of_le_of_lt forward moves, Nat.lt_of_le_of_lt forward inside⟩

theorem takes_alternatives
    {branches : List (List Item)}
    (some : branches ≠ [])
    (written : WrittenBranches flags branches)
    (each : ∀ branch ∈ branches, Takes branch) :
    Takes (alternatives flags branches) := by
  intro text start stop passes way
  obtain ⟨branch, member, within⟩ := alternatives_le text some written _ _ _ way
  exact each branch member text _ _ _ within

theorem Takes.inScope
    (takes : Takes items) :
    Takes [.scoped items] := by
  intro text start stop passes way
  rw [itemsWays_single] at way
  exact takes text _ _ _ way

theorem Takes.inCapture
    (takes : Takes items)
    (index : Nat) :
    Takes [.captured index items] := by
  intro text start stop passes way
  rw [itemsWays_single] at way
  obtain ⟨inner, inside, -⟩ := way
  exact takes text _ _ _ inside

end Items

/-! ## Kinds of pieces -/

/-- A piece goes on with a branch as `Builds` has it, and takes a character. -/
def BuildsTaking (deep : Bool) (flags : Flags) (before after : List (List Char × Nat))
    (piece : List Char) : Prop :=
  ∃ entries, Adds deep flags before after piece entries ∧
    BringsGroups flags before after (entries.flatMap Entry.items) ∧
    Takes (entries.flatMap Entry.items)

/-- A piece makes up branches as `Offers` has it, each of which takes a character. -/
def OffersTaking (deep : Bool) (flags : Flags) (before after : List (List Char × Nat))
    (piece : List Char) : Prop :=
  ∃ branches, branches ≠ [] ∧ Splits deep flags before after piece branches ∧
    ∀ branch ∈ branches, BringsGroups flags before after branch ∧ Takes branch

/-- A piece makes up branches without groups wherever it stands, each of which takes a
character. -/
def PlainTaking (flags : Flags) (piece : List Char) : Prop :=
  ∀ names, ∃ branches, Splits true flags names names piece branches ∧
    PlainBranches flags branches ∧ ∀ branch ∈ branches, Takes branch

section Rules

variable {deep : Bool} {flags : Flags} {before between after : List (List Char × Nat)}
  {first second piece : List Char}

theorem BuildsTaking.builds
    (builds : BuildsTaking deep flags before after piece) :
    Builds deep flags before after piece := by
  obtain ⟨entries, adds, brings, -⟩ := builds
  exact ⟨entries, adds, brings⟩

theorem OffersTaking.offers
    (offers : OffersTaking deep flags before after piece) :
    Offers deep flags before after piece := by
  obtain ⟨branches, some, splits, each⟩ := offers
  exact ⟨branches, some, splits, fun branch member => (each branch member).1⟩

theorem BuildsTaking.append
    (one : BuildsTaking deep flags before between first)
    (other : Builds deep flags between after second)
    (mild : Mild second) :
    BuildsTaking deep flags before after (first ++ second) := by
  obtain ⟨entries, adds, brings, takes⟩ := one
  obtain ⟨more, addsMore, bringsMore⟩ := other
  refine ⟨entries ++ more, adds.append addsMore mild, ?_, ?_⟩
  · rw [List.flatMap_append]
    exact brings.append bringsMore
  · rw [List.flatMap_append]
    exact takes.append_left _

theorem Builds.append_taking
    (one : Builds deep flags before between first)
    (other : BuildsTaking deep flags between after second)
    (mild : Mild second) :
    BuildsTaking deep flags before after (first ++ second) := by
  obtain ⟨entries, adds, brings⟩ := one
  obtain ⟨more, addsMore, bringsMore, takes⟩ := other
  refine ⟨entries ++ more, adds.append addsMore mild, ?_, ?_⟩
  · rw [List.flatMap_append]
    exact brings.append bringsMore
  · rw [List.flatMap_append]
    exact takes.append_right _

theorem BuildsTaking.offers
    (builds : BuildsTaking deep flags before after piece) :
    OffersTaking deep flags before after piece := by
  obtain ⟨entries, adds, brings, takes⟩ := builds
  exact ⟨_, List.cons_ne_nil _ _, .of_adds adds,
    List.forall_mem_singleton.mpr ⟨brings, takes⟩⟩

theorem OffersTaking.bar
    (one : OffersTaking deep flags before between first)
    (other : OffersTaking deep flags between after second) :
    OffersTaking deep flags before after (first ++ '|' :: second) := by
  have leOne := one.offers.le
  have leOther := other.offers.le
  obtain ⟨branches, some, splits, each⟩ := one
  obtain ⟨others, _, splitsOther, eachOther⟩ := other
  refine ⟨branches ++ others, List.append_ne_nil_of_left_ne_nil some others,
    splits.bar splitsOther, List.forall_mem_append.mpr ⟨?_, ?_⟩⟩
  · intro branch member
    exact ⟨(each branch member).1.mono (Nat.le_refl _) (by omega), (each branch member).2⟩
  · intro branch member
    exact ⟨(eachOther branch member).1.mono (by omega) (Nat.le_refl _),
      (eachOther branch member).2⟩

theorem takes_ofBranches
    {branches : List (List Item)}
    (some : branches ≠ [])
    (each : ∀ branch ∈ branches, BringsGroups flags before after branch ∧ Takes branch) :
    BringsGroups flags before after (alternatives flags branches) ∧
      Takes (alternatives flags branches) :=
  ⟨.ofBranches some fun branch member => (each branch member).1,
    takes_alternatives some (fun branch member => (each branch member).1.written)
      fun branch member => (each branch member).2⟩

theorem OffersTaking.group
    (offers : OffersTaking true flags before after piece) :
    BuildsTaking deep flags before after (Pattern.group piece) := by
  obtain ⟨branches, some, splits, each⟩ := offers
  refine ⟨_, splits.group, ?_⟩
  rw [BringsGroups, List.flatMap_singleton]
  exact takes_ofBranches some each

/-- An alternative in a group of its own. -/
theorem BuildsTaking.grouped
    (builds : BuildsTaking true flags before after piece) :
    OffersTaking deep flags before after (Pattern.group piece) :=
  builds.offers.group.offers

/-- A group with flags of its own. -/
theorem OffersTaking.flagged
    {c : Char}
    {letters : List Char}
    {on off : List InlineFlag}
    {length : Nat}
    (offers : OffersTaking true (flags.change on off) before after piece)
    (flag : (c == '-' || (InlineFlag.ofLetter? c).isSome) = true)
    (listed : flagList c ⟨letters, 0⟩ = .ok (.scoped on off, ⟨[], length⟩))
    (sound : letters ≠ ['\\']) :
    BuildsTaking deep flags before after ('(' :: '?' :: c :: (letters ++ (piece ++ [')']))) := by
  obtain ⟨branches, some, splits, each⟩ := offers
  obtain ⟨brings, takes⟩ := takes_ofBranches some each
  refine ⟨_, splits.flagged flag listed sound, ?_⟩
  rw [BringsGroups, List.flatMap_singleton]
  exact ⟨brings.inScope, takes.inScope⟩

theorem PlainTaking.plain
    (plain : PlainTaking flags piece) :
    Plain flags piece := by
  intro names
  obtain ⟨branches, splits, fine, -⟩ := plain names
  exact ⟨branches, splits, fine⟩

theorem PlainTaking.offers
    (plain : PlainTaking flags piece)
    (names : List (List Char × Nat)) :
    OffersTaking true flags names names piece := by
  obtain ⟨branches, splits, fine, takes⟩ := plain names
  exact ⟨branches, fine.1, splits, fun branch member =>
    ⟨fine.brings names branch member, takes branch member⟩⟩

/-- Pieces without groups, with bars between them. -/
theorem PlainTaking.oneOf
    {pieces : List (List Char)}
    (some : pieces ≠ [])
    (each : ∀ piece ∈ pieces, PlainTaking flags piece) :
    PlainTaking flags (Pattern.oneOf pieces) := by
  intro names
  obtain ⟨parted, all, fine⟩ := exists_parted fun piece member => each piece member names
  have someParted : parted ≠ [] := by
    rintro rfl
    cases all
    exact some rfl
  refine ⟨parted.flatten, Splits.oneOf some all,
    plainBranches_flatten someParted fun branches member => (fine branches member).1, ?_⟩
  intro branch member
  obtain ⟨branches, listed, among⟩ := List.mem_flatten.mp member
  exact (fine branches listed).2 branch among

/-- A group with a name of its own around a piece without groups. -/
theorem PlainTaking.captured
    {name : List Char}
    (plain : PlainTaking flags piece)
    (spelled : NamePlain name)
    (isName : Text.isName name = true)
    (new : before.lookup name = none) :
    BuildsTaking deep flags before (before ++ [(name, before.length + 1)])
      ('(' :: '?' :: 'P' :: '<' :: (name ++ '>' :: (piece ++ [')']))) := by
  obtain ⟨branches, splits, fine, takes⟩ := plain (before ++ [(name, before.length + 1)])
  refine ⟨_, splits.captured spelled isName new, ?_, ?_⟩
  · exact fine.captured
  · rw [List.flatMap_singleton]
    exact (takes_alternatives fine.1 fine.2.1.written takes).inCapture _

/-- An expression that is put together from pieces that take a character takes one. -/
theorem OffersTaking.compile
    (offers : OffersTaking false flags [] after piece) :
    ∃ regex, Regex.compile flags piece = .ok regex ∧
      ∀ text start stop passes, regex.node.ways text start stop passes → start < stop := by
  obtain ⟨branches, some, splits, each⟩ := offers
  obtain ⟨brings, takes⟩ := takes_ofBranches some each
  obtain ⟨regex, compiled, node, -⟩ := splits.compile ((late_ofItems _).mpr brings.late)
  refine ⟨regex, compiled, ?_⟩
  rw [node]
  exact fun text start stop passes way => (takes text start stop passes way).1

end Rules

/-! ## Pieces that are closed by themselves -/

section Closed

variable {flags : Flags} {piece : List Char}

/-- Whether a branch cannot do without a character. -/
def demandsAny (branch : List Item) : Bool :=
  (Part.ofItems branch).node.demands fun _ => true

/-- Whether a piece is closed and has one branch, which takes a character. -/
def takesAlone (flags : Flags) (piece : List Char) : Bool :=
  (ending? flags piece).any fun final =>
    final.level.branches.isEmpty && (Reading.branches final.level).all demandsAny

/-- Whether a piece is closed and all of its branches take a character. -/
def eachTakes (flags : Flags) (piece : List Char) : Bool :=
  (ending? flags piece).any fun final => (Reading.branches final.level).all demandsAny

theorem plainTaking_of_eachTakes
    (takes : eachTakes flags piece = true)
    (terse : flags.verbose = false) :
    PlainTaking flags piece := by
  obtain ⟨final, ends, all⟩ := (Option.any_eq_true _ _).mp takes
  have closed := closed_of_ending? ends
  intro names
  exact ⟨_, closed.splits terse names, closed.plainBranches terse,
    fun branch member => takes_of_demands (List.all_eq_true.mp all branch member)⟩

theorem buildsTaking_of_takesAlone
    (takes : takesAlone flags piece = true)
    (terse : flags.verbose = false)
    (names : List (List Char × Nat)) :
    BuildsTaking true flags names names piece := by
  obtain ⟨final, ends, good⟩ := (Option.any_eq_true _ _).mp takes
  obtain ⟨single, all⟩ := Bool.and_eq_true_iff.mp good
  have closed := closed_of_ending? ends
  have simple := List.isEmpty_iff.mp single
  have branch : final.level.entries.reverse.flatMap Entry.items ∈
      Reading.branches final.level := by
    rw [Reading.branches, simple]
    exact List.mem_singleton.mpr rfl
  exact ⟨_, closed.adds terse simple names, (closed.plainBranches terse).brings names _ branch,
    takes_of_demands (List.all_eq_true.mp all _ branch)⟩

end Closed

end NoticeScan.Regex
