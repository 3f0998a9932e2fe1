import NoticeScan.Proofs.Attribution
import NoticeScan.Proofs.Construction
import NoticeScan.Proofs.Exhaustive

/-!
# Owners that are known

The name of an owner is what comes before the first of the phrases that often follow names. A
normal text begins with no blank, so something is left of it. Whether the owner is known is asked
of that name, and a pattern for a longer name is of no use where such a phrase is part of it.
-/

namespace NoticeScan

open NoticeScan.Regex NoticeScan.Scan NoticeScan.Text

/-! ## Where a search finds something -/

namespace Regex

section Searching

variable {regex : Regex} {text : Array Char}

/-- The test that an expression begins with, if that is how it begins. -/
def Node.firstTest? : Node → Option CharTest
  | .seq (.char test) _ => some test
  | _ => none

/-- A way of an expression begins at a place. -/
def Begins (regex : Regex) (text : Array Char) (place : Nat) : Prop :=
  ∃ stop passes, regex.node.ways text place stop passes

variable {place : Nat}

theorem Begins.passes
    (begins : regex.Begins text place)
    {test : CharTest}
    (first : regex.node.firstTest? = some test) :
    ∃ c, text[place]? = some c ∧ test.passes c = true := by
  obtain ⟨stop, passes, way⟩ := begins
  generalize regex.node = node at first way
  unfold Node.firstTest? at first
  split at first
  · cases first
    obtain ⟨middle, before, after, ⟨here, -⟩, -⟩ := way
    exact here
  · cases first

/-- An expression that tries all of its ways matches wherever one of them begins, if the search
does not pass over that place. -/
theorem matchAt_isSome_iff
    (bare : regex.node.bare = true)
    (unconditional : regex.node.unconditional = true)
    (opens : regex.Begins text place → regex.mayOpen text place = true) :
    (regex.matchAt text false place).isSome = true ↔ regex.Begins text place := by
  constructor
  · intro isSome
    obtain ⟨found, is⟩ := Option.isSome_iff_exists.mp isSome
    obtain ⟨start, passes, way, -⟩ := matchAt_tells (Node.fits_of_bare bare (Nat.le_refl 0)) is
    rw [start] at way
    exact ⟨found.stop, passes, way⟩
  · intro begins
    rw [matchAt, if_pos (opens begins)]
    obtain ⟨stop, passes, way⟩ := begins
    have accepts : Accepts (fun behind : Cursor =>
        if (!false || behind.pos != place) = true then .found behind
        else .failed behind.marks) stop := fun marks => ⟨_, rfl⟩
    obtain ⟨last, found⟩ := Node.run_tries text unconditional false way accepts #[]
    rw [matchFrom, found]
    rfl

end Searching

end Regex

/-! ## The name before a phrase -/

namespace Scan

/-- A phrase that often follows a name takes up the text from a place on. -/
def TailAt (text : List Char) (place : Nat) : Prop :=
  ownerTail.Begins text.toArray place

/-- The part of a text that names an owner: what comes before the first phrase, or all of it. -/
structure OwnerPart (text owner : List Char) : Prop where
  front : owner <+: text
  untouched : ∀ place < owner.length, ¬ TailAt text place
  cut : owner = text ∨ TailAt text owner.length

variable {text owner : List Char} {place : Nat}

theorem ownerTail_facts :
    ownerTail.node.bare = true ∧ ownerTail.node.unconditional = true ∧
      ownerTail.node.firstTest? = some (.listed false [0x20]) ∧
      ownerTail.opening = some (.fulfils false [.point 0x20]) := by
  decide +kernel

/-- A phrase begins with a blank. -/
theorem TailAt.blank
    (tail : TailAt text place) :
    text[place]? = some ' ' := by
  obtain ⟨-, -, first, -⟩ := ownerTail_facts
  obtain ⟨c, here, passed⟩ := Regex.Begins.passes tail first
  have same : c.toNat = 0x20 := by simpa [CharTest.passes] using passed
  rw [List.getElem?_toArray] at here
  rw [here, ← Char.ofNat_toNat c, same]

theorem matchAt_ownerTail :
    (ownerTail.matchAt text.toArray false place).isSome = true ↔ TailAt text place := by
  obtain ⟨bare, unconditional, -, opening⟩ := ownerTail_facts
  apply matchAt_isSome_iff bare unconditional
  intro begins
  rw [Regex.mayOpen, opening, List.getElem?_toArray, TailAt.blank begins]
  rfl

theorem not_tailAt_of_matchAt
    (none : ownerTail.matchAt text.toArray false place = none) :
    ¬ TailAt text place := by
  rw [← matchAt_ownerTail, none]
  exact Bool.false_ne_true

/-- The name of an owner is cut as it should be. -/
theorem ownerPart_normalOwner
    (text : List Char) :
    OwnerPart text (normalOwner text) := by
  unfold normalOwner
  cases is : ownerTail.find? text.toArray with
  | none =>
      refine ⟨List.prefix_rfl, fun place less => ?_, Or.inl rfl⟩
      apply not_tailAt_of_matchAt
      apply searchFrom_none is place (Nat.zero_le place)
      rw [Nat.zero_add]
      exact Nat.le_of_lt less
  | some found =>
      obtain ⟨matched, before⟩ := searchFrom_leftmost ownerTail_facts.1 is
      have tail : TailAt text found.start := matchAt_ownerTail.mp (by rw [matched]; rfl)
      have within : found.start < text.length := (List.getElem?_eq_some_iff.mp tail.blank).1
      have length : (text.take found.start).length = found.start := by
        rw [List.length_take, Nat.min_eq_left (Nat.le_of_lt within)]
      refine ⟨List.take_prefix _ _, fun place less => ?_, Or.inr ?_⟩
      · rw [length] at less
        exact not_tailAt_of_matchAt (before place (Nat.zero_le place) less)
      · rw [length]
        exact tail

/-- There is only one way to cut a text. -/
theorem OwnerPart.unique
    {other : List Char}
    (part : OwnerPart text owner)
    (otherPart : OwnerPart text other) :
    owner = other := by
  have noShorter {one two : List Char} (cutOne : OwnerPart text one) (cutTwo : OwnerPart text two) :
      two.length ≤ one.length := by
    rcases cutOne.cut with rfl | tail
    · exact cutTwo.front.length_le
    · by_contra less
      exact cutTwo.untouched one.length (Nat.lt_of_not_le less) tail
  have length := Nat.le_antisymm (noShorter otherPart part) (noShorter part otherPart)
  rw [List.prefix_iff_eq_take.mp part.front, List.prefix_iff_eq_take.mp otherPart.front, length]

theorem ownerPart_iff :
    OwnerPart text owner ↔ owner = normalOwner text := by
  constructor
  · exact fun part => part.unique (ownerPart_normalOwner text)
  · rintro rfl
    exact ownerPart_normalOwner text

/-- Phrases behind the names of owners, and an empty text. -/
theorem normalOwner_phrases :
    normalOwner "Evil Corp All rights reserved.".toList = "Evil Corp".toList ∧
      normalOwner "Evil Corp All rights reserved".toList = "Evil Corp".toList ∧
      normalOwner "Jane Doe and others See the file".toList = "Jane Doe and others".toList ∧
      normalOwner [] = [] := by
  decide +kernel

/-- Something is left of a text that does not begin with a blank. -/
theorem OwnerPart.ne_nil
    (part : OwnerPart text owner)
    (filled : text ≠ [])
    (normal : normalText text = text) :
    owner ≠ [] := by
  rintro rfl
  rcases part.cut with empty | tail
  · exact filled empty.symm
  · have first : (normalText text).head? = some ' ' := by
      rw [normal, List.head?_eq_getElem?]
      exact tail.blank
    have noBlank : isBlank ' ' = false := head?_trimOf first
    cases noBlank

end Scan

namespace Scanner

/-! ## Texts that mention a licence -/

theorem occursIn_iff
    {part text : List Char} :
    occursIn part text = true ↔ part <:+: text := by
  induction text with
  | nil =>
      unfold occursIn
      rw [List.isEmpty_iff, List.infix_nil]
  | cons c rest inductionHypothesis =>
      unfold occursIn
      rw [Bool.or_eq_true, List.isPrefixOf_iff_prefix, inductionHypothesis, List.infix_cons_iff]

/-- A word of a text is `license` or `licence`, in letters of either case. -/
def Mentions (text : List Char) : Prop :=
  ∃ word, word <:+: text ∧
    (word.map smallLetter = "license".toList ∨ word.map smallLetter = "licence".toList)

theorem mentionsLicense_iff
    {text : List Char} :
    mentionsLicense text = true ↔ Mentions text := by
  have occurs (part : List Char) :
      part <:+: text.map smallLetter ↔ ∃ word, word <:+: text ∧ word.map smallLetter = part := by
    constructor
    · rintro ⟨front, back, split⟩
      obtain ⟨before, behind, rfl, small, rfl⟩ := List.map_eq_append_iff.mp split.symm
      obtain ⟨first, word, rfl, rfl, rfl⟩ := List.map_eq_append_iff.mp small
      exact ⟨word, ⟨first, behind, rfl⟩, rfl⟩
    · rintro ⟨word, ⟨front, back, rfl⟩, rfl⟩
      exact ⟨front.map smallLetter, back.map smallLetter, by simp⟩
  unfold mentionsLicense Mentions
  dsimp only
  rw [Bool.or_eq_true, occursIn_iff, occursIn_iff, occurs, occurs, ← exists_or]
  simp only [and_or_left]

instance (text : List Char) : Decidable (Mentions text) :=
  decidable_of_iff _ mentionsLicense_iff

/-! ## The party of an owner -/

instance (limits : Pattern.Limits) (patterns : List String) (text : List Char) :
    Decidable (Describes limits patterns text) :=
  decidable_of_iff
    (∃ pattern ∈ patterns, ∃ compiled ∈ (Pattern.compile limits pattern).toOption,
      compiled.describes text.toArray = true) <| by
    apply exists_congr
    intro pattern
    cases Pattern.compile limits pattern <;> simp [Except.toOption]

/-- The party of the patterns that describe the name of an owner, with the forbidden ones first
and those of the project last. -/
def ownerParty (rules : RuleSet) (limits : Pattern.Limits) (owner : List Char) : Party :=
  if Describes limits rules.forbiddenOwners owner then .forbidden
  else if Describes limits rules.thirdOwners owner then .third
  else .first

section Owners

variable {rules : RuleSet} {limits : Pattern.Limits} {scanner : Scanner} {text owner : List Char}
  {slot : Slot}

/-- A name is known as the owner that the rule set has it for. -/
theorem Built.knownOwner?_eq
    (built : Built rules limits scanner)
    (filled : owner ≠ [])
    (known : ∃ role, Describes limits (rules.get (.owners role)) owner) :
    scanner.knownOwner? owner = some (ownerParty rules limits owner) := by
  have forbidden := describes_iff (built.owners .forbidden) owner
  have third := describes_iff (built.owners .third) owner
  have first := describes_iff (built.owners .first) owner
  have notEmpty : ¬ owner.isEmpty = true := by rwa [List.isEmpty_iff]
  unfold knownOwner? ownerParty
  rw [if_neg notEmpty, describing?_eq]
  by_cases isForbidden : Describes limits rules.forbiddenOwners owner
  · rw [if_pos isForbidden, if_pos (forbidden.mpr isForbidden)]
  · rw [if_neg isForbidden, if_neg (mt forbidden.mp isForbidden)]
    by_cases isThird : Describes limits rules.thirdOwners owner
    · rw [if_pos isThird, if_pos (third.mpr isThird)]
    · rw [if_neg isThird, if_neg (mt third.mp isThird)]
      obtain ⟨role, known⟩ := known
      cases role with
      | forbidden => exact absurd known isForbidden
      | third => exact absurd known isThird
      | first => rw [if_pos (first.mpr known)]

theorem Built.knownOwner?_eq_none
    (built : Built rules limits scanner)
    (unknown : owner = [] ∨ ∀ role, ¬ Describes limits (rules.get (.owners role)) owner) :
    scanner.knownOwner? owner = none := by
  unfold knownOwner?
  by_cases empty : owner = []
  · rw [if_pos (List.isEmpty_iff.mpr empty)]
  · have never (role : Role) := mt (describes_iff (built.owners role) owner).mp
      (unknown.resolve_left empty role)
    rw [if_neg (mt List.isEmpty_iff.mp empty), describing?_eq, if_neg (never .forbidden),
      if_neg (never .third), if_neg (never .first)]

/-- What is captured as an owner is put down to one, unless it is a known licence or mentions
one. -/
theorem Built.classify_owner
    (built : Built rules limits scanner)
    (names : slot = .author ∨ slot = .copyrightOwner)
    (unlicensed : ∀ role, ¬ Describes limits (rules.get (.licenses role)) text)
    (unmentioned : ¬ Mentions text) :
    scanner.classify text slot =
      ((scanner.knownOwner? (normalOwner text)).getD .third, .owner) := by
  have ofOwner : (slot.isLicense || mentionsLicense text) = false := by
    rw [Bool.or_eq_false_iff, ← Bool.not_eq_true (mentionsLicense text), mentionsLicense_iff]
    rcases names with rfl | rfl
    · exact ⟨rfl, unmentioned⟩
    · exact ⟨rfl, unmentioned⟩
  unfold classify
  rw [(built.knownLicense?_eq_none text).mpr unlicensed]
  dsimp only
  rw [ofOwner, if_neg Bool.false_ne_true]

/-- An owner that the rule set knows is recognised in the slots of owners by the part of the text
that names it: a normal text that is no known licence and mentions none is put down to the party
that the rule set has for the name. -/
theorem classify_knownOwner
    (built : Built rules limits scanner)
    (names : slot = .author ∨ slot = .copyrightOwner)
    (filled : text ≠ [])
    (normal : normalText text = text)
    (unlicensed : ∀ role, ¬ Describes limits (rules.get (.licenses role)) text)
    (unmentioned : ¬ Mentions text)
    (part : OwnerPart text owner)
    (known : ∃ role, Describes limits (rules.get (.owners role)) owner) :
    scanner.classify text slot = (ownerParty rules limits owner, .owner) := by
  rw [built.classify_owner names unlicensed unmentioned, ← ownerPart_iff.mp part,
    built.knownOwner?_eq (part.ne_nil filled normal) known]
  rfl

theorem exists_scanner
    (checked : rules.issues = .ok [])
    (contained : rules.SelfContained) :
    ∃ scanner, ofRules rules = .ok scanner ∧ Built rules {} scanner := by
  rcases settled_ofRules checked with ⟨issue, member, -⟩ | ⟨-, -, settled⟩
  · cases member
  · obtain ⟨scanner, made, -⟩ := settled contained
    exact ⟨scanner, made, built_of_build made⟩

end Owners

/-- Two owners with phrases behind their names, one of which is forbidden and known to the project
as well. -/
theorem classify_knownOwner_phrases :
    let rules : RuleSet :=
      { firstOwners := ["Evil Corp"], thirdOwners := ["Jane.*"], forbiddenOwners := ["Evil Corp"] }
    ∃ scanner, ofRules rules = .ok scanner ∧
      scanner.classify "Evil Corp All rights reserved.".toList .copyrightOwner =
        (.forbidden, .owner) ∧
      scanner.classify "Jane Doe and others See the file".toList .author = (.third, .owner) := by
  intro rules
  have checked : rules.issues = .ok [] := by decide +kernel
  have contained : rules.SelfContained := by decide +kernel
  obtain ⟨scanner, made, built⟩ := exists_scanner checked contained
  have unlicensed (text : List Char) (role : Role) :
      ¬ Describes {} (rules.get (.licenses role)) text := by
    cases role <;> simp [rules, RuleSet.get, Describes]
  obtain ⟨ofEvilCorp, -, ofJane, -⟩ := normalOwner_phrases
  have evilCorp := classify_knownOwner built (.inr rfl) (by decide) (by decide +kernel)
    (unlicensed "Evil Corp All rights reserved.".toList) (by decide +kernel)
    (ownerPart_iff.mpr ofEvilCorp.symm) ⟨.first, by decide +kernel⟩
  have jane := classify_knownOwner built (.inl rfl) (by decide) (by decide +kernel)
    (unlicensed "Jane Doe and others See the file".toList) (by decide +kernel)
    (ownerPart_iff.mpr ofJane.symm) ⟨.third, by decide +kernel⟩
  refine ⟨scanner, made, evilCorp.trans ?_, jane.trans ?_⟩
  · decide +kernel
  · decide +kernel

/-- A pattern for a whole text is of no use where a phrase that follows names is part of it, nor
is one for the empty text. -/
theorem classify_wholeText_evilCorp :
    let rules : RuleSet := { forbiddenOwners := ["Evil Corp All rights reserved", "a?"] }
    ∃ scanner, ofRules rules = .ok scanner ∧
      ∀ text ∈ ["Evil Corp All rights reserved".toList, []],
        normalText text = text ∧
        (∀ role, ¬ Describes {} (rules.get (.licenses role)) text) ∧
        ¬ Mentions text ∧ Describes {} rules.forbiddenOwners text ∧
        scanner.classify text .copyrightOwner = (.third, .owner) := by
  intro rules
  have checked : rules.issues = .ok [] := by decide +kernel
  have contained : rules.SelfContained := by decide +kernel
  obtain ⟨scanner, made, built⟩ := exists_scanner checked contained
  refine ⟨scanner, made, ?_⟩
  intro text member
  have unlicensed (role : Role) : ¬ Describes {} (rules.get (.licenses role)) text := by
    cases role <;> simp [rules, RuleSet.get, Describes]
  have facts : ∀ text ∈ ["Evil Corp All rights reserved".toList, []],
      normalText text = text ∧ ¬ Mentions text ∧ Describes {} rules.forbiddenOwners text := by
    decide +kernel
  obtain ⟨normal, unmentioned, described⟩ := facts text member
  have unknown : normalOwner text = [] ∨
      ∀ role, ¬ Describes {} (rules.get (.owners role)) (normalOwner text) := by
    obtain ⟨-, ofEvilCorp, -, ofNothing⟩ := normalOwner_phrases
    rcases List.mem_pair.mp member with rfl | rfl
    · right
      intro role
      rw [ofEvilCorp]
      cases role <;> decide +kernel
    · exact .inl ofNothing
  refine ⟨normal, unlicensed, unmentioned, described, ?_⟩
  rw [built.classify_owner (.inr rfl) unlicensed unmentioned, built.knownOwner?_eq_none unknown]
  rfl

end Scanner

end NoticeScan
