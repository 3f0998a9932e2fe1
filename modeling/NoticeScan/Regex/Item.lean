import NoticeScan.Regex.Part

/-!
# Items

An expression is read item by item. The branches of a choice are compared with one another
before they become a tree: what all of them start with is taken out in front of the choice, and
branches of one character each are a character class.
-/

namespace NoticeScan.Regex

/-- An item that holds no other. Two of them that are written alike are the same item. -/
inductive Leaf where
  | point (negated : Bool) (x : Nat)
  | oneOf (negated : Bool) (members : List Member)
  | dot
  /-- A position, by the sign or letter that is written for it. -/
  | place (sign : Char)
  | never
  | again (index : Nat)
  deriving Repr, DecidableEq

/-- What kind of item something is. -/
inductive ItemKind where
  | leaf (leaf : Leaf)
  /-- A repeat, which cannot be repeated again. -/
  | repeated
  | other
  deriving Repr, DecidableEq

/-- The characters one of which an item starts with, as they are written. -/
structure Opening where
  folding : Folding
  negated : Bool := false
  members : List Member
  deriving Repr, DecidableEq

/-- A part that stands in a sequence. -/
structure Item extends Part where
  kind : ItemKind := .other
  opening : Option Opening := none
  deriving Repr, DecidableEq

/-- Items one after the other. -/
def Part.ofItems (items : List Item) : Part :=
  .sequence (items.map (·.toPart))

/-! ## Openings -/

/-- Whether case may make a difference for a member of a class; for a range that goes on beyond
the basic plane this is taken for granted. -/
def Member.touched (folding : Folding) (member : Member) : Bool :=
  match member with
  | .point x => folding.touches x
  | .range low high =>
      folding != .exact &&
        (basicPlaneEnd < high || (List.range' low (high + 1 - low)).any folding.touches)
  | .category _ _ => false

/-- The test that an opening is under the flags of the whole expression, unless it depends on
case. -/
def Opening.test? (opening : Opening) (flags : Flags) : Option CharTest :=
  if opening.members.any (Member.touched opening.folding) then
    none
  else
    some (.ofMembers { flags with ignoreCase := false } opening.negated opening.members)

/-- The characters that a sequence starts with. -/
def openingOf (items : List Item) : Option Opening :=
  match items with
  | [] => none
  | item :: _ => item.opening

/-! ## Single items -/

/-- One character, or any but that. -/
def Item.ofPoint (flags : Flags) (negated : Bool) (x : Nat) : Item where
  node := .char (.ofPoint flags negated x)
  width := ⟨1, 1⟩
  kind := .leaf (.point negated x)
  opening := if negated then none else some { folding := flags.folding, members := [.point x] }

/-- A character out of some members, or out of none of them. -/
def Item.ofMembers (flags : Flags) (negated : Bool) (members : List Member) : Item where
  node := .char (.ofMembers flags negated members)
  width := ⟨1, 1⟩
  kind := .leaf (.oneOf negated members)
  opening := some { folding := flags.folding, negated := negated, members := members }

/-- A character class. A class with a single point is that point. -/
def Item.ofClass (flags : Flags) (negated : Bool) (members : List Member) : Item :=
  match members.eraseDups with
  | [.point x] => .ofPoint flags negated x
  | distinct => .ofMembers flags negated distinct

/-- A dot. -/
def Item.dot (flags : Flags) : Item where
  node := .char (.dot flags)
  width := ⟨1, 1⟩
  kind := .leaf .dot

/-- A position. -/
def Item.ofAnchor (sign : Char) (anchor : Anchor) : Item where
  node := .anchor anchor
  kind := .leaf (.place sign)

/-- What a group of a given width has captured, once more. -/
def Item.again (flags : Flags) (index : Nat) (width : Width) : Item where
  node := .again index flags.folding
  width := width
  kind := .leaf (.again index)

/-- What matches nowhere. -/
def Item.never : Item where
  node := .never
  kind := .leaf .never

/-! ## Items made of others -/

/-- A repeat of a part. -/
def Item.repeating (flags : Flags) (greed : Greed) (low high : Nat) (body : Part) : Item where
  node := .repeated greed low (if high = endless then none else some high) body.node
  width := ⟨body.width.low * low, body.width.high * high⟩
  late := if flags.template then some (.templateRepeat greed) else body.late
  kind := .repeated

/-- A part that has to match here, or right before, or must not. -/
def Item.looking (behind negated : Bool) (body : Part) : Item where
  node := .look (if behind then some body.width.low else none) negated body.node
  late :=
    if behind && body.width.low != body.width.high then some .lookbehindWidth else body.late

/-- Items whose first way of matching is the only one. -/
def Item.atomic (items : List Item) : Item :=
  let body := Part.ofItems items
  { body with node := .atomic body.node }

/-- Items whose text is captured. -/
def Item.captured (index : Nat) (items : List Item) : Item :=
  let body := Part.ofItems items
  { body with
    node := .group index body.node
    opening := openingOf items }

/-- Items with flags of their own. -/
def Item.scoped (items : List Item) : Item :=
  { Part.ofItems items with opening := openingOf items }

/-- Either of two sequences, as a group has captured something or not. -/
def Item.branching (index : Nat) (first second : List Item) : Item :=
  let yes := Part.ofItems first
  let no := Part.ofItems second
  { node := .branch index yes.node no.node
    width := yes.width.either no.width
    late := firstFault yes.late no.late }

/-! ## Choices -/

/-- Whether a sequence starts with the same leaf as an item. -/
def startsAlike (item : Item) (items : List Item) : Bool :=
  match items with
  | [] => false
  | other :: _ =>
      match item.kind, other.kind with
      | .leaf first, .leaf second => first = second
      | _, _ => false

/-- What a sequence and the sequences beside it have in common at the start, and what is left of
each. -/
def splitShared : List Item → List (List Item) → List Item × List (List Item)
  | [], others => ([], [] :: others)
  | item :: rest, others =>
      if others.all (startsAlike item) then
        let (shared, left) := splitShared rest (others.map List.tail)
        (item :: shared, left)
      else
        ([], (item :: rest) :: others)

/-- The members of several sequences, when each of them is one character out of some. -/
def membersOf : List (List Item) → Option (List Member)
  | [] => some []
  | [item] :: rest =>
      match item.kind, membersOf rest with
      | .leaf (.point false x), some more => some (.point x :: more)
      | .leaf (.oneOf false members), some more => some (members ++ more)
      | _, _ => none
  | _ :: _ => none

/-- The code point that a sequence starts with, as a member of a class. -/
def leadingPoint? (items : List Item) : Option Member :=
  match items with
  | [] => none
  | item :: _ =>
      match item.kind with
      | .leaf (.point false x) => some (.point x)
      | _ => none

/-- Sequences of which one is taken, with nothing in common at the start. -/
def Item.choice (flags : Flags) (branches : List (List Item)) : Item :=
  match membersOf branches with
  | some members => .ofMembers flags false members.eraseDups
  | none =>
      { Part.choice (branches.map Part.ofItems) with
        opening := (branches.mapM leadingPoint?).map fun points =>
          { folding := flags.folding, members := points } }

/-- Sequences of which one is taken, as one sequence: what they share, and then the choice. -/
def alternatives (flags : Flags) (branches : List (List Item)) : List Item :=
  match branches with
  | [] => []
  | [items] => items
  | first :: others =>
      let (shared, left) := splitShared first others
      shared ++ [.choice flags left]

/-! ## Sequences while they are read -/

/-- What stands in a sequence while it is read. A group that only holds items together is one
entry until the sequence ends, since it may be repeated. -/
inductive Entry where
  | single (item : Item)
  | bundle (items : List Item)
  deriving Repr, DecidableEq

/-- The items of an entry. -/
def Entry.items (entry : Entry) : List Item :=
  match entry with
  | .single item => [item]
  | .bundle items => items

/-- What a repeat that is written at `mark` repeats. -/
def Entry.repeatable (entry : Entry) (mark : Nat) : Except Error Part :=
  match entry with
  | .bundle items => .ok (.ofItems items)
  | .single item =>
      match item.kind with
      | .leaf (.place _) => Fault.nothingToRepeat.at mark
      | .repeated => Fault.multipleRepeat.at mark
      | _ => .ok (.ofItems [item])

end NoticeScan.Regex
