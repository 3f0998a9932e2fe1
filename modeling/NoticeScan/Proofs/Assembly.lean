import NoticeScan.Proofs.Parts
import NoticeScan.Proofs.Pieces

/-!
# Assembling expressions

How the pieces of a long expression are put together is told by a few rules. What follows from
them is that the whole compiles, and which groups it has.
-/

namespace NoticeScan.Regex

variable {deep : Bool} {flags inner : Flags} {before between after : List (List Char × Nat)}
  {first second piece : List Char} {items : List Item}

/-- Items that are sound, whose groups are those between two lists of groups, and whose ways
enclose what the groups capture. -/
abbrev BringsGroups (flags : Flags) (before after : List (List Char × Nat))
    (items : List Item) : Prop :=
  Brings flags (2 * before.length) (2 * after.length) (fun _ => .enclosing) items

theorem BringsGroups.append
    {more : List Item}
    (one : BringsGroups flags before between items)
    (other : BringsGroups flags between after more) :
    BringsGroups flags before after (items ++ more) :=
  (Brings.append one other).imp fun _ => Ways.enclosing_andThen

/-- A piece goes on with a branch, and brings the groups between two lists of groups along. Its ways
are of some kind. -/
def BuildsVia (ways : Array Char → Ways) (deep : Bool) (flags : Flags)
    (before after : List (List Char × Nat)) (piece : List Char) : Prop :=
  ∃ entries, Adds deep flags before after piece entries ∧
    Brings flags (2 * before.length) (2 * after.length) ways (entries.flatMap Entry.items)

/-- A piece makes up branches, which bring the groups between two lists of groups along. Their ways
are of some kind. -/
def OffersVia (ways : Array Char → Ways) (deep : Bool) (flags : Flags)
    (before after : List (List Char × Nat)) (piece : List Char) : Prop :=
  ∃ branches, branches ≠ [] ∧ Splits deep flags before after piece branches ∧
    ∀ branch ∈ branches, Brings flags (2 * before.length) (2 * after.length) ways branch

/-- A piece goes on with a branch, and brings the groups between two lists of groups along. -/
def Builds (deep : Bool) (flags : Flags) (before after : List (List Char × Nat))
    (piece : List Char) : Prop :=
  ∃ entries, Adds deep flags before after piece entries ∧
    BringsGroups flags before after (entries.flatMap Entry.items)

/-- A piece makes up branches, which bring the groups between two lists of groups along. -/
def Offers (deep : Bool) (flags : Flags) (before after : List (List Char × Nat))
    (piece : List Char) : Prop :=
  ∃ branches, branches ≠ [] ∧ Splits deep flags before after piece branches ∧
    ∀ branch ∈ branches, BringsGroups flags before after branch

/-- Branches without groups in which nothing is wrong. -/
def PlainBranches (flags : Flags) (branches : List (List Item)) : Prop :=
  branches ≠ [] ∧ TidyBranches flags branches ∧
    ∀ branch ∈ branches, ∀ item ∈ branch, item.late = none

/-- A piece makes up branches without groups, wherever it stands. -/
def Plain (flags : Flags) (piece : List Char) : Prop :=
  ∀ names, ∃ branches, Splits true flags names names piece branches ∧
    PlainBranches flags branches

/-! ## Pieces without groups -/

theorem Closed.flags_eq
    {final : Reading}
    (closed : Closed flags piece final)
    (terse : flags.verbose = false) :
    final.level.flags = flags := by
  let around : Reading :=
    { input := ⟨piece, 0⟩, level := { opener := .plain, start := 0, flags := flags } }
  have ready : Ready true flags [] around :=
    ⟨rfl, by simp [around], by simp [around], ⟨rfl, rfl⟩, rfl⟩
  exact (closed.reaches_in terse ready (List.append_nil piece).symm quiet_nil).2

theorem Closed.plainBranches
    {final : Reading}
    (closed : Closed flags piece final)
    (terse : flags.verbose = false) :
    PlainBranches flags (Reading.branches final.level) := by
  have tidy := closed.tidy
  rw [closed.flags_eq terse] at tidy
  exact ⟨by simp [Reading.branches], tidy, closed.branches_late⟩

theorem Closed.plain
    {final : Reading}
    (closed : Closed flags piece final)
    (terse : flags.verbose = false) :
    Plain flags piece :=
  fun names => ⟨_, closed.splits terse names, closed.plainBranches terse⟩

theorem PlainBranches.brings
    {branches : List (List Item)}
    (plain : PlainBranches flags branches)
    (names : List (List Char × Nat)) :
    ∀ branch ∈ branches, BringsGroups flags names names branch := by
  intro branch member
  exact Brings.of_tidy (plain.2.1 branch member) (plain.2.2 branch member) (2 * names.length)

theorem Plain.offers
    (plain : Plain flags piece)
    (names : List (List Char × Nat)) :
    Offers true flags names names piece := by
  obtain ⟨branches, splits, fine⟩ := plain names
  exact ⟨branches, fine.1, splits, fine.brings names⟩

theorem builds_nil
    (names : List (List Char × Nat)) :
    Builds deep flags names names [] := by
  have none : ∀ {p : Item → Prop}, ∀ item ∈ ([] : List Item), p item :=
    fun item member => absurd member List.not_mem_nil
  exact ⟨[], adds_nil names, Brings.of_tidy none none (2 * names.length)⟩

/-- A closed piece without bars goes on with a branch. -/
theorem Closed.builds
    {final : Reading}
    (closed : Closed flags piece final)
    (terse : flags.verbose = false)
    (simple : final.level.branches = [])
    (names : List (List Char × Nat)) :
    Builds true flags names names piece := by
  refine ⟨_, closed.adds terse simple names, ?_⟩
  apply (closed.plainBranches terse).brings names
  rw [Reading.branches, simple]
  exact List.mem_singleton.mpr rfl

/-- Whether a piece is closed and has no bars. -/
def standsAlone (flags : Flags) (piece : List Char) : Bool :=
  (ending? flags piece).any fun final => final.level.branches.isEmpty

theorem builds_of_standsAlone
    (stands : standsAlone flags piece = true)
    (terse : flags.verbose = false)
    (names : List (List Char × Nat)) :
    Builds true flags names names piece := by
  obtain ⟨final, ends, simple⟩ := (Option.any_eq_true _ _).mp stands
  exact (closed_of_ending? ends).builds terse (List.isEmpty_iff.mp simple) names

theorem plain_of_ending?
    (ends : (ending? flags piece).isSome = true)
    (terse : flags.verbose = false) :
    Plain flags piece := by
  obtain ⟨final, ends⟩ := Option.isSome_iff_exists.mp ends
  exact (closed_of_ending? ends).plain terse

/-- Pieces of some kind, each with the branches that it makes up. -/
theorem exists_parted
    {names : List (List Char × Nat)}
    {kind : List (List Item) → Prop}
    {pieces : List (List Char)}
    (each : ∀ piece ∈ pieces, ∃ branches,
      Splits true flags names names piece branches ∧ kind branches) :
    ∃ parted, List.Forall₂ (fun piece branches =>
      Splits true flags names names piece branches) pieces parted ∧
        ∀ branches ∈ parted, kind branches := by
  induction pieces with
  | nil => exact ⟨[], .nil, fun _ none => absurd none List.not_mem_nil⟩
  | cons piece rest inductionHypothesis =>
      obtain ⟨branches, splits, fine⟩ := each piece List.mem_cons_self
      obtain ⟨parted, all, fineRest⟩ :=
        inductionHypothesis fun other member => each other (List.mem_cons_of_mem _ member)
      exact ⟨branches :: parted, .cons splits all, List.forall_mem_cons.mpr ⟨fine, fineRest⟩⟩

theorem plainBranches_flatten
    {parted : List (List (List Item))}
    (some : parted ≠ [])
    (each : ∀ branches ∈ parted, PlainBranches flags branches) :
    PlainBranches flags parted.flatten := by
  refine ⟨?_, ?_, ?_⟩
  · obtain ⟨branches, rest, rfl⟩ := List.exists_cons_of_ne_nil some
    rw [List.flatten_cons]
    exact List.append_ne_nil_of_left_ne_nil (each _ List.mem_cons_self).1 _
  · intro branch member
    obtain ⟨branches, listed, among⟩ := List.mem_flatten.mp member
    exact (each branches listed).2.1 branch among
  · intro branch member
    obtain ⟨branches, listed, among⟩ := List.mem_flatten.mp member
    exact (each branches listed).2.2 branch among

/-- Pieces without groups, with bars between them. -/
theorem Plain.oneOf
    {pieces : List (List Char)}
    (some : pieces ≠ [])
    (each : ∀ piece ∈ pieces, Plain flags piece) :
    Plain flags (Pattern.oneOf pieces) := by
  intro names
  obtain ⟨parted, all, fine⟩ := exists_parted fun piece member => each piece member names
  have someParted : parted ≠ [] := by
    rintro rfl
    cases all
    exact some rfl
  exact ⟨parted.flatten, Splits.oneOf some all, plainBranches_flatten someParted fine⟩

/-! ## Putting pieces together -/

section Via

variable {ways others : Array Char → Ways}

theorem BuildsVia.imp
    (builds : BuildsVia ways deep flags before after piece)
    (wider : ∀ text, (ways text).Le (others text)) :
    BuildsVia others deep flags before after piece := by
  obtain ⟨entries, adds, brings⟩ := builds
  exact ⟨entries, adds, brings.imp wider⟩

theorem BuildsVia.append
    (one : BuildsVia ways deep flags before between first)
    (other : BuildsVia others deep flags between after second)
    (mild : Mild second) :
    BuildsVia (fun text => (ways text).andThen (others text)) deep flags before after
      (first ++ second) := by
  obtain ⟨entries, adds, brings⟩ := one
  obtain ⟨more, addsMore, bringsMore⟩ := other
  refine ⟨entries ++ more, adds.append addsMore mild, ?_⟩
  rw [List.flatMap_append]
  exact brings.append bringsMore

theorem BuildsVia.offers
    (builds : BuildsVia ways deep flags before after piece) :
    OffersVia ways deep flags before after piece := by
  obtain ⟨entries, adds, brings⟩ := builds
  exact ⟨_, List.cons_ne_nil _ _, .of_adds adds, List.forall_mem_singleton.mpr brings⟩

theorem OffersVia.le
    (offers : OffersVia ways deep flags before after piece) :
    before.length ≤ after.length := by
  obtain ⟨branches, some, -, brings⟩ := offers
  obtain ⟨branch, member⟩ := List.exists_mem_of_ne_nil branches some
  have le := (brings branch member).le
  omega

theorem OffersVia.bar
    (one : OffersVia ways deep flags before between first)
    (other : OffersVia ways deep flags between after second) :
    OffersVia ways deep flags before after (first ++ '|' :: second) := by
  have leOne := one.le
  have leOther := other.le
  obtain ⟨branches, some, splits, brings⟩ := one
  obtain ⟨more, _, splitsMore, bringsMore⟩ := other
  refine ⟨branches ++ more, List.append_ne_nil_of_left_ne_nil some more,
    splits.bar splitsMore, ?_⟩
  intro branch member
  rcases List.mem_append.mp member with early | late
  · exact (brings branch early).mono (Nat.le_refl _) (by omega)
  · exact (bringsMore branch late).mono (by omega) (Nat.le_refl _)

theorem OffersVia.group
    (offers : OffersVia ways true flags before after piece) :
    BuildsVia ways deep flags before after (Pattern.group piece) := by
  obtain ⟨branches, some, splits, brings⟩ := offers
  refine ⟨_, splits.group, ?_⟩
  rw [List.flatMap_singleton]
  exact Brings.ofBranches some brings

/-- An alternative in a group of its own. -/
theorem BuildsVia.grouped
    (builds : BuildsVia ways true flags before after piece) :
    OffersVia ways deep flags before after (Pattern.group piece) :=
  builds.offers.group.offers

end Via

theorem Builds.append
    (one : Builds deep flags before between first)
    (other : Builds deep flags between after second)
    (mild : Mild second) :
    Builds deep flags before after (first ++ second) :=
  (BuildsVia.append one other mild).imp fun _ => Ways.enclosing_andThen

theorem Offers.le
    (offers : Offers deep flags before after piece) :
    before.length ≤ after.length :=
  OffersVia.le offers

theorem Builds.offers
    (builds : Builds deep flags before after piece) :
    Offers deep flags before after piece :=
  BuildsVia.offers builds

theorem Offers.bar
    (one : Offers deep flags before between first)
    (other : Offers deep flags between after second) :
    Offers deep flags before after (first ++ '|' :: second) :=
  OffersVia.bar one other

theorem Offers.group
    (offers : Offers true flags before after piece) :
    Builds deep flags before after (Pattern.group piece) :=
  OffersVia.group offers

/-- An alternative in a group of its own. -/
theorem Builds.grouped
    (builds : Builds true flags before after piece) :
    Offers deep flags before after (Pattern.group piece) :=
  builds.offers.group.offers

/-- A group that is repeated. -/
theorem Offers.repeated
    (offers : Offers true flags before after piece)
    (terse : flags.template = false)
    {sign : Char}
    {bounds : List Char}
    {low high length : Nat}
    (isSign : sign = '?' ∨ sign = '\x7b')
    (sound : bounds ≠ ['\\'])
    (read : lexRepeat flags sign ⟨bounds, 0⟩ =
      .ok (.repeating low high .greedy, ⟨[], length⟩)) :
    Builds deep flags before after (Pattern.group piece ++ sign :: bounds) := by
  obtain ⟨branches, some, splits, brings⟩ := offers
  refine ⟨_, splits.repeated isSign sound read, ?_⟩
  rw [BringsGroups, List.flatMap_singleton]
  have repeated : Brings flags _ _ _ _ := (Brings.ofBranches some brings).repeating terse low high
  exact repeated.imp fun _ => Ways.between_le Ways.stay_enclosing Ways.enclosing_andThen _ _

/-- A group around branches without groups. -/
theorem PlainBranches.captured
    {name : List Char}
    {branches : List (List Item)}
    (plain : PlainBranches flags branches) :
    BringsGroups flags before (before ++ [(name, before.length + 1)])
      ([Entry.single (.captured (before.length + 1) (alternatives flags branches))].flatMap
        Entry.items) := by
  obtain ⟨-, tidy, late⟩ := plain
  rw [BringsGroups, List.flatMap_singleton, List.length_append]
  have inside := tidy_alternatives tidy
  have fine := (late_alternatives tidy.written).mpr late
  have encloses := (Brings.of_tidy inside fine 0).takes
  exact (Brings.captured inside fine before.length).imp fun text =>
    ((encloses text).inGroup _).trans (Ways.inGroup_enclosing _)

/-- A group with a name of its own around a piece without groups. -/
theorem Plain.captured
    {name : List Char}
    (plain : Plain flags piece)
    (spelled : NamePlain name)
    (isName : Text.isName name = true)
    (new : before.lookup name = none) :
    Builds deep flags before (before ++ [(name, before.length + 1)])
      ('(' :: '?' :: 'P' :: '<' :: (name ++ '>' :: (piece ++ [')']))) := by
  obtain ⟨branches, splits, fine⟩ := plain (before ++ [(name, before.length + 1)])
  exact ⟨_, splits.captured spelled isName new, fine.captured⟩

/-! ## The whole expression -/

/-- An expression that makes up branches in which nothing is wrong compiles to them, and a search
for it looks for what they start with. -/
theorem Splits.compile_opening
    {branches : List (List Item)}
    (splits : Splits false flags [] after piece branches)
    (late : (Part.ofItems (alternatives flags branches)).late = none) :
    ∃ regex, Regex.compile flags piece = .ok regex ∧
      regex.node = (Part.ofItems (alternatives flags branches)).node ∧ regex.names = after ∧
      regex.groupCount = after.length ∧
      regex.opening = openingTest? flags (alternatives flags branches) := by
  have ready : Ready false flags [] (Reading.start flags piece) :=
    ⟨rfl, by simp [Reading.start], by simp, ⟨rfl, rfl⟩, rfl⟩
  obtain ⟨pos, groups, finished, entries, named, listed, reaches⟩ :=
    splits.reaches _ [] ready rfl (List.append_nil piece).symm quiet_nil
  have ran := Reading.run_of_reaches (Nat.lt_succ_self piece.length) reaches rfl
  have finish : ((Reading.start flags piece).goneOn [] pos finished entries groups).finish =
      .ok (alternatives flags branches) := by
    have read : Reading.branches ((Reading.start flags piece).goneOn [] pos finished entries
        groups).level = branches := listed
    have same : ((Reading.start flags piece).goneOn [] pos finished entries groups).level.flags =
        flags := rfl
    rw [Reading.finish]
    dsimp only [Reading.goneOn, Reading.start] at read same ⊢
    rw [read, late]
    rfl
  have checked : Input.checked ⟨piece, 0⟩ = .ok ⟨piece, 0⟩ := if_neg splits.sound
  have compiled : Regex.compile flags piece =
      .ok
        { node := (Part.ofItems (alternatives flags branches)).node
          opening := openingTest? flags (alternatives flags branches)
          groupCount := groups.widths.size - 1
          names := groups.names } :=
    bind_eq_ok.mpr ⟨_, checked, bind_eq_ok.mpr ⟨_, ran, bind_eq_ok.mpr ⟨_, finish, rfl⟩⟩⟩
  refine ⟨_, compiled, rfl, named.names, ?_, rfl⟩
  dsimp only
  rw [named.widths, Nat.add_sub_cancel]

/-- An expression that makes up branches in which nothing is wrong compiles to them. -/
theorem Splits.compile
    {branches : List (List Item)}
    (splits : Splits false flags [] after piece branches)
    (late : (Part.ofItems (alternatives flags branches)).late = none) :
    ∃ regex, Regex.compile flags piece = .ok regex ∧
      regex.node = (Part.ofItems (alternatives flags branches)).node ∧ regex.names = after ∧
      regex.groupCount = after.length := by
  obtain ⟨regex, compiled, node, names, count, -⟩ := splits.compile_opening late
  exact ⟨regex, compiled, node, names, count⟩

/-- An expression that is put together by the rules compiles. It has the groups that its pieces
bring along, their borders lie in order, and its ways are of the kind that those of its pieces
are. -/
theorem OffersVia.compile
    {ways : Array Char → Ways}
    (offers : OffersVia ways false flags [] after piece) :
    ∃ regex, Regex.compile flags piece = .ok regex ∧ regex.names = after ∧
      regex.groupCount = after.length ∧ regex.node.Fits 0 (2 * after.length) ∧
      ∀ text, (regex.node.ways text).Le (ways text) := by
  obtain ⟨branches, some, splits, brings⟩ := offers
  have whole := Brings.ofBranches some brings
  obtain ⟨regex, compiled, node, names, count⟩ :=
    splits.compile ((late_ofItems _).mpr whole.late)
  exact ⟨regex, compiled, names, count, node ▸ whole.fits, node ▸ whole.takes⟩

/-- An expression that is put together by the rules captures nothing outside of a match. -/
theorem Offers.compile
    (offers : Offers false flags [] after piece) :
    ∃ regex, Regex.compile flags piece = .ok regex ∧ regex.names = after ∧
      regex.groupCount = after.length ∧ regex.node.Fits 0 (2 * after.length) ∧
      ∀ text, (regex.node.ways text).Le .enclosing :=
  OffersVia.compile offers

end NoticeScan.Regex
