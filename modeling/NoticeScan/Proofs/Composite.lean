import NoticeScan.Proofs.Accepted
import NoticeScan.Proofs.Taking
import NoticeScan.Scan.Composite

/-!
# The groups of the composite expression

Inline forms that can stand anywhere make up a composite expression that compiles. It has the
groups that the builder has written into it, in their order and with their names, and no others.
-/

namespace NoticeScan.Scan

open NoticeScan.Regex NoticeScan.Pattern

/-! ## The names of groups -/

/-- The name of a group of a slot. -/
def groupName (slot : Slot) (number : Nat) : List Char :=
  slot.title.toList ++ '_' :: (toString number).toList

/-- Whether a text can be written as the name of a group. -/
def namesGroup (name : List Char) : Bool :=
  Text.isName name && name.all fun c => c != '\\' && c != '>'

theorem spelled_of_namesGroup
    {name : List Char}
    (named : namesGroup name = true) :
    NamePlain name ∧ Text.isName name = true := by
  obtain ⟨isName, all⟩ := Bool.and_eq_true_iff.mp named
  refine ⟨?_, isName⟩
  intro c member
  simpa using List.all_eq_true.mp all c member

theorem continuesName_of_isDigit
    {c : Char}
    (digit : c.isDigit = true) :
    Text.continuesName c.toNat = true := by
  have all : ∀ x < 58, 48 ≤ x → Text.continuesName x = true := by decide +kernel
  rw [Char.isDigit, Bool.and_eq_true, decide_eq_true_eq, decide_eq_true_eq] at digit
  exact all c.toNat (Nat.lt_succ_of_le digit.2) digit.1

theorem namesGroup_append
    {front digits : List Char}
    (named : namesGroup front = true)
    (each : ∀ c ∈ digits, c.isDigit = true) :
    namesGroup (front ++ digits) = true := by
  obtain ⟨isName, spelled⟩ := Bool.and_eq_true_iff.mp named
  cases front with
  | nil => cases isName
  | cons c rest =>
      obtain ⟨starts, goesOn⟩ := Bool.and_eq_true_iff.mp isName
      have further : (digits.all fun d => Text.continuesName d.toNat) = true :=
        List.all_eq_true.mpr fun d member => continuesName_of_isDigit (each d member)
      have plain : (digits.all fun d => d != '\\' && d != '>') = true := by
        refine List.all_eq_true.mpr fun d member => ?_
        have digit := each d member
        rw [Bool.and_eq_true, bne_iff_ne, bne_iff_ne]
        constructor <;> rintro rfl <;> cases digit
      rw [namesGroup, Bool.and_eq_true, List.all_append, Bool.and_eq_true]
      refine ⟨?_, spelled, plain⟩
      rw [List.cons_append, Text.isName, List.all_append, starts, goesOn, further]
      rfl

/-- The names of slots with their numbers are names of groups. -/
theorem namesGroup_groupName
    (slot : Slot)
    (number : Nat) :
    namesGroup (groupName slot number) = true := by
  have front : namesGroup (slot.title.toList ++ ['_']) = true := by
    cases slot <;> decide +kernel
  have digits : ∀ c ∈ (toString number).toList, c.isDigit = true := by
    intro c member
    have shown : (toString number).toList = Nat.toDigits 10 number := by
      have same : (toString number).toList = (Nat.repr number).toList := rfl
      rw [same, Nat.repr_eq_ofList_toDigits, String.toList_ofList]
    rw [shown] at member
    exact Nat.isDigit_of_mem_toDigits (by decide) (by decide) member
  have split : groupName slot number = slot.title.toList ++ ['_'] ++ (toString number).toList := by
    rw [List.append_assoc]
    rfl
  rw [split]
  exact namesGroup_append front digits

/-! ## Names in order -/

/-- Named groups with one more behind them. -/
def enlist (names : List (List Char × Nat)) (name : List Char) : List (List Char × Nat) :=
  names ++ [(name, names.length + 1)]

/-- Named groups with several more behind them. -/
def enlistAll (names : List (List Char × Nat)) (more : List (List Char)) :
    List (List Char × Nat) :=
  more.foldl enlist names

theorem length_enlistAll
    (names : List (List Char × Nat))
    (more : List (List Char)) :
    (enlistAll names more).length = names.length + more.length := by
  induction more generalizing names with
  | nil => rfl
  | cons name rest inductionHypothesis =>
      have others := inductionHypothesis (enlist names name)
      rw [enlist, List.length_append] at others
      rw [List.length_cons]
      exact others.trans (by simp; omega)

theorem length_enlistAll_nil
    (more : List (List Char)) :
    (enlistAll [] more).length = more.length :=
  (length_enlistAll [] more).trans (Nat.zero_add _)

/-- Whether names that are added one by one are new. -/
def areNew (names : List (List Char × Nat)) : List (List Char) → Bool
  | [] => true
  | name :: more => (names.lookup name).isNone && areNew (enlist names name) more

theorem new_of_areNew
    {names : List (List Char × Nat)}
    {name : List Char}
    {more : List (List Char)}
    (new : areNew names (name :: more) = true) :
    names.lookup name = none ∧ areNew (enlist names name) more = true := by
  obtain ⟨none, others⟩ := Bool.and_eq_true_iff.mp new
  exact ⟨Option.isNone_iff_eq_none.mp none, others⟩

theorem capture_eq
    (slot : Slot)
    (number : Nat)
    (piece : Expr) :
    capture slot number piece =
      '(' :: '?' :: 'P' :: '<' :: (groupName slot number ++ '>' :: (piece ++ [')'])) := by
  have opening : "(?P<".toList = ['(', '?', 'P', '<'] := by decide
  -- Here and below: equations of definitions that hold literals are slow to make.
  delta capture groupName
  rw [opening]
  simp

/-- A group of a slot around a piece without groups. -/
theorem builds_capture
    {flags : Flags}
    {before : List (List Char × Nat)}
    {piece : Expr}
    (slot : Slot)
    (number : Nat)
    (plain : Plain flags piece)
    (new : before.lookup (groupName slot number) = none) :
    Builds true flags before (enlist before (groupName slot number))
      (capture slot number piece) := by
  obtain ⟨spelled, isName⟩ := spelled_of_namesGroup (namesGroup_groupName slot number)
  rw [capture_eq]
  exact plain.captured spelled isName new

/-! ## Pieces that start mildly -/

theorem mild_group_append
    (piece rest : Expr) :
    Mild (group piece ++ rest) := by
  have opening : "(?:".toList = ['(', '?', ':'] := by decide
  delta group
  rw [opening]
  exact mild_cons rfl (by decide) _

theorem mild_group
    (piece : Expr) :
    Mild (group piece) := by
  rw [← List.append_nil (group piece)]
  exact mild_group_append piece []

theorem mild_times
    (piece : Expr)
    (low high : Int) :
    Mild (times (group piece) low high) := by
  rw [times, List.append_assoc, List.append_assoc]
  exact mild_group_append piece _

theorem mild_capture
    (slot : Slot)
    (number : Nat)
    (piece : Expr) :
    Mild (capture slot number piece) := by
  have opening : "(?P<".toList = ['(', '?', 'P', '<'] := by decide
  delta capture
  rw [opening]
  exact mild_cons rfl (by decide) _

/-! ## Names and owners -/

/-- The usual bounds, inline forms that can stand anywhere, and some contract words, which all take
a character. -/
structure Ingredients.Sound (parts : Ingredients) : Prop where
  usual : parts.limits = {}
  licenses : ∀ body ∈ parts.licenses, Plain Pattern.flags body
  owners : ∀ body ∈ parts.owners, Plain Pattern.flags body
  words : ∀ body ∈ parts.words, PlainTaking Pattern.flags body
  someWords : parts.words ≠ []

variable {parts : Ingredients} {before : List (List Char × Nat)}

/-- The flags under which the label of a licence is looked for. -/
def labelFlags : Regex.Flags :=
  Pattern.flags.change [] [.dotAll, .multiLine]

/-- What may stand before an owner. -/
def ownerLead : Expr :=
  optional ("by".toList ++ times blank 1 47) ++ optional ("the".toList ++ times blank 1 47)

/-- What leads to a licence under which something is distributed. -/
def genericLead : Expr :=
  "is".toList ++ times blank 1 47 ++ "(?:distributed|provided)".toList ++
    times blank 1 47 ++ "under".toList ++
    optional (times blank 1 47 ++ "(?:the|this)".toList) ++ times blank 1 47

/-- The label of a licence. -/
def labelLead : Expr :=
  "licen[cs]e:".toList ++ times "\\s".toList 1 47

/-- What leads to an author. -/
def authorLead : Expr :=
  "\\b".toList ++ group (oneOf
      ["the".toList ++ times blank 1 47 ++ "author".toList ++ times blank 1 47 ++
          "of".toList ++ times blank 1 47 ++ "this".toList ++ times blank 1 47 ++
          "software".toList ++ times blank 1 47 ++ "is".toList,
        optional ("principal".toList ++ times blank 1 47) ++ "author:?".toList]) ++
    times blank 1 47

/-- What leads to years and an owner. -/
def copyrightLead : Expr :=
  optional (times blank 0 47 ++ Ingredients.copyrightMark ++ times blank 0 47) ++
    group (oneOf
      ["copy(?:right|left)".toList ++ optional (times blank 1 47 ++ "notice".toList) ++
          optional (times blank 0 47 ++ Ingredients.copyrightMark),
        Ingredients.copyrightMark]) ++
    times blank 1 47

/-- What leads to further years and owners. -/
def furtherLead : Expr :=
  "(?:portions)?".toList ++ times blank 0 47 ++ Ingredients.copyrightMark ++
    '?' :: times blank 1 47 ++ "copy(?:right|left)".toList ++
    optional (times blank 0 47 ++ Ingredients.copyrightMark) ++ times blank 1 47

/-- Years within the usual bounds. -/
def usualYears : Expr :=
  Ingredients.years ⟨{}, [], [], []⟩

/-- Where contract words start and stop. -/
def contractStart : Expr :=
  group (oneOf ["\\b".toList, openQuote])

@[inherit_doc contractStart]
def contractStop : Expr :=
  group (oneOf ["\\b".toList, anyOf (",.;:".toList ++ closeQuoteMembers)])

/-- The names of the groups of a copyright notice. -/
def copyrightNames : List (List Char) :=
  [1, 2, 3, 4].map (groupName .copyrightOwner)

/-- The names of the groups that every composite expression has. -/
def commonNames : List (List Char) :=
  groupName .genericLicense 1 :: groupName .licenseLabel 1 :: groupName .author 1 ::
    copyrightNames

/-- What the builder writes around the groups can stand anywhere, and the names of the groups are
new. -/
structure Surroundings : Prop where
  blanks : standsAlone Pattern.flags (times blank 1 47) = true
  owner : standsAlone Pattern.flags ownerLead = true
  generic : takesAlone Pattern.flags genericLead = true
  marks : standsAlone Pattern.flags (times "[,.;]".toList 0 3) = true
  colon : standsAlone Pattern.flags "(?![:])".toList = true
  label : takesAlone labelFlags labelLead = true
  lineEnd : standsAlone labelFlags "\\n".toList = true
  author : takesAlone Pattern.flags authorLead = true
  copyright : takesAlone Pattern.flags copyrightLead = true
  further : standsAlone Pattern.flags furtherLead = true
  years : standsAlone Pattern.flags usualYears = true
  markedYears : standsAlone Pattern.flags (usualYears ++ times blankOrMark 1 47) = true
  start : standsAlone Pattern.flags contractStart = true
  between : standsAlone Pattern.flags blank = true
  stop : standsAlone Pattern.flags contractStop = true
  common : areNew [] commonNames = true
  known : areNew (enlist [] (groupName .knownLicense 1)) commonNames = true

-- All of these in one place: the kernel waits for what it has begun before it evaluates more.
theorem surroundings : Surroundings := by
  constructor <;> decide +kernel

/-- The names of an owner. -/
def ownerNames : Expr :=
  name {} ++ times (group (times blank 1 47 ++ name {})) 0 35

/-- The names of a licence under which something is distributed. -/
def genericNames : Expr :=
  times (group (name {} ++ times blank 1 47)) 2 35 ++ "?licen[cs]e".toList

/-- The names behind the label of a licence. -/
def labelNames : Expr :=
  name {} ++ times (group (times "\\s".toList 1 47 ++ name {})) 0 35

set_option maxRecDepth 10000 in
/-- Names are read to their end by themselves. -/
theorem names_end :
    ((ending? Pattern.flags ownerNames).isSome && (ending? Pattern.flags genericNames).isSome &&
      (ending? labelFlags labelNames).isSome) = true := by
  delta ownerNames genericNames labelNames name url email dottedNumber hostEnds openQuote
    closeQuote notCloseQuote blank
  simp only [List.map_cons, List.map_nil]
  delta anyOf noneOf caseGroup blankMembers times group oneOf letter letterOrDigit nameChar
    emailChar urlChar upperChar openQuoteMembers closeQuoteMembers
  -- The texts are spelled out first, since taking literals apart is slow.
  simp only [String.reduceToList, String.toList_append]
  decide +kernel

theorem plain_names :
    Plain Pattern.flags ownerNames ∧ Plain Pattern.flags genericNames ∧
      Plain labelFlags labelNames := by
  have ends := names_end
  simp only [Bool.and_eq_true] at ends
  obtain ⟨⟨owner, generic⟩, label⟩ := ends
  exact ⟨plain_of_ending? owner rfl, plain_of_ending? generic rfl, plain_of_ending? label rfl⟩

theorem builds_blanks1
    (sound : parts.Sound)
    (names : List (List Char × Nat)) :
    Builds true Pattern.flags names names parts.blanks1 := by
  have around := surroundings
  rw [Ingredients.blanks1, sound.usual]
  exact builds_of_standsAlone around.blanks rfl names

/-- An owner has one group. -/
theorem builds_owner
    (slot : Slot)
    (number : Nat)
    (sound : parts.Sound)
    (new : before.lookup (groupName slot number) = none) :
    Builds true Pattern.flags before (enlist before (groupName slot number))
      (parts.owner slot number) := by
  have around := surroundings
  have each : ∀ piece ∈ parts.owners ++ [ownerNames], Plain Pattern.flags piece := by
    intro piece member
    rcases List.mem_append.mp member with known | names
    · exact sound.owners piece known
    · rw [List.mem_singleton.mp names]
      exact plain_names.1
  have some : parts.owners ++ [ownerNames] ≠ [] := by simp
  have captured := builds_capture slot number (Plain.oneOf some each) new
  have whole :=
    (builds_of_standsAlone around.owner rfl before).append captured (mild_capture _ _ _)
  rw [Ingredients.owner, Ingredients.blanks1, sound.usual]
  exact whole

theorem mild_owner
    (slot : Slot)
    (number : Nat) :
    Mild (parts.owner slot number) := by
  rw [Ingredients.owner, optional]
  simp only [List.append_assoc]
  exact mild_group_append _ _

/-! ## The alternatives -/

theorem builds_genericLicense
    (sound : parts.Sound)
    (new : before.lookup (groupName .genericLicense 1) = none) :
    BuildsTaking true Pattern.flags before (enlist before (groupName .genericLicense 1))
      parts.genericLicense := by
  have around := surroundings
  have front := buildsTaking_of_takesAlone around.generic rfl before
  have captured := builds_capture .genericLicense 1 plain_names.2.1 new
  have whole :=
    ((front.append captured (mild_capture _ _ _)).append
      (builds_of_standsAlone around.marks rfl _) (mild_cons rfl (by decide) _)).append
      (builds_of_standsAlone around.colon rfl _) (mild_cons rfl (by decide) _)
  delta Ingredients.genericLicense Ingredients.blanks1
  rw [sound.usual]
  exact whole.offers.group

/-- The label of a licence with its flags spelled out. -/
theorem licenseLabel_eq
    (sound : parts.Sound) :
    parts.licenseLabel =
      '(' :: '?' :: '-' :: (['m', 's', ':'] ++
        (labelLead ++ capture .licenseLabel 1 labelNames ++ "\\n".toList ++ [')'])) := by
  have opening : "(?-ms:licen[cs]e:".toList =
      '(' :: '?' :: '-' :: (['m', 's', ':'] ++ "licen[cs]e:".toList) := by
    decide
  have closing : "\\n)".toList = "\\n".toList ++ [')'] := by decide
  delta Ingredients.licenseLabel labelLead labelNames
  rw [sound.usual, opening, closing]
  simp only [List.append_assoc, List.cons_append]

theorem listed_labelFlags :
    flagList '-' ⟨['m', 's', ':'], 0⟩ = .ok (.scoped [] [.dotAll, .multiLine], ⟨[], 3⟩) :=
  rfl

theorem builds_licenseLabel
    (sound : parts.Sound)
    (new : before.lookup (groupName .licenseLabel 1) = none) :
    BuildsTaking true Pattern.flags before (enlist before (groupName .licenseLabel 1))
      parts.licenseLabel := by
  have around := surroundings
  have front := buildsTaking_of_takesAlone around.label rfl before
  have captured := builds_capture .licenseLabel 1 plain_names.2.2 new
  have inside :=
    (front.append captured (mild_capture _ _ _)).append
      (builds_of_standsAlone around.lineEnd rfl _) (mild_escape _ _)
  rw [licenseLabel_eq sound]
  exact inside.offers.flagged rfl listed_labelFlags (by decide)

theorem builds_author
    (sound : parts.Sound)
    (new : before.lookup (groupName .author 1) = none) :
    BuildsTaking true Pattern.flags before (enlist before (groupName .author 1))
      parts.author := by
  have around := surroundings
  have front := buildsTaking_of_takesAlone around.author rfl before
  have owner := builds_owner .author 1 sound new
  have whole := front.append owner (mild_owner _ _)
  delta Ingredients.author
  rw [Ingredients.blanks1, sound.usual]
  exact whole

theorem oneOf_pair
    (first second : Expr) :
    oneOf [first, second] = first ++ '|' :: second := by
  rw [oneOf_cons, oneOf, List.intercalate_singleton]

/-- Years and an owner in either order have a group for each order. -/
theorem builds_datedOwner
    {number : Nat}
    (sound : parts.Sound)
    (newFirst : before.lookup (groupName .copyrightOwner number) = none)
    (newSecond : (enlist before (groupName .copyrightOwner number)).lookup
      (groupName .copyrightOwner (number + 1)) = none) :
    Builds true Pattern.flags before
      (enlist (enlist before (groupName .copyrightOwner number))
        (groupName .copyrightOwner (number + 1)))
      (parts.datedOwner number) := by
  have around := surroundings
  have usual : parts.years = usualYears := by
    delta usualYears Ingredients.years Ingredients.marks1
    rw [sound.usual]
  have years (names : List (List Char × Nat)) :=
    builds_of_standsAlone around.years rfl names
  have markedYears := builds_of_standsAlone around.markedYears rfl before
  have behind := markedYears.append (builds_owner _ _ sound newFirst) (mild_owner _ _)
  have ahead :=
    ((builds_owner _ _ sound newSecond).append (builds_blanks1 sound _)
      (mild_cons rfl (by decide) _)).append (years _) (mild_escape _ _)
  have either := behind.offers.bar ahead.offers
  delta Ingredients.datedOwner Ingredients.marks1
  rw [oneOf_pair, usual, sound.usual]
  exact either.group

theorem mild_datedOwner
    (number : Nat) :
    Mild (parts.datedOwner number) := by
  delta Ingredients.datedOwner
  exact mild_group _

/-- A group that is repeated within bounds. -/
theorem builds_times
    {after : List (List Char × Nat)}
    {piece bounds : Expr}
    {low high : Int}
    {least most length : Nat}
    (offers : Offers true Pattern.flags before after piece)
    (written : bound low ++ ',' :: (bound high ++ ['\x7d']) = bounds)
    (read : lexRepeat Pattern.flags '\x7b' ⟨bounds, 0⟩ =
      .ok (.repeating least most .greedy, ⟨[], length⟩)) :
    Builds true Pattern.flags before after (times (group piece) low high) := by
  have spelled : times (group piece) low high = group piece ++ '\x7b' :: bounds := by
    rw [times, ← written]
    simp
  have sound : bounds ≠ ['\\'] := by
    rw [← written]
    cases bound low <;> simp
  rw [spelled]
  exact offers.repeated rfl (Or.inr rfl) sound read

theorem builds_copyright
    (sound : parts.Sound)
    (new : areNew before copyrightNames = true) :
    BuildsTaking true Pattern.flags before (enlistAll before copyrightNames)
      parts.copyright := by
  have around := surroundings
  obtain ⟨newFirst, new⟩ := new_of_areNew new
  obtain ⟨newSecond, new⟩ := new_of_areNew new
  obtain ⟨newThird, new⟩ := new_of_areNew new
  obtain ⟨newFourth, -⟩ := new_of_areNew new
  have leading := (buildsTaking_of_takesAlone around.copyright rfl before).append
    (builds_datedOwner sound newFirst newSecond) (mild_datedOwner 1)
  have round := (builds_of_standsAlone around.further rfl _).append
    (builds_datedOwner sound newThird newFourth) (mild_datedOwner 3)
  have bounds : bound 0 ++ ',' :: (bound 5 ++ ['\x7d']) = ['0', ',', '5', '\x7d'] := by
    decide
  have read : lexRepeat Pattern.flags '\x7b' ⟨['0', ',', '5', '\x7d'], 0⟩ =
      .ok (.repeating 0 5 .greedy, ⟨[], 4⟩) := by
    rfl
  have rounds := builds_times round.offers bounds read
  delta Ingredients.copyright Ingredients.blanks0 Ingredients.blanks1
  rw [sound.usual]
  exact leading.append rounds (mild_times _ _ _)

/-- Contract words have no groups. -/
theorem builds_contract
    (sound : parts.Sound) :
    BuildsTaking true Pattern.flags before before parts.contract := by
  have around := surroundings
  have word : BuildsTaking true Pattern.flags before before (group (oneOf parts.words)) :=
    ((PlainTaking.oneOf sound.someWords sound.words).offers before).group
  have next :=
    (builds_of_standsAlone around.between rfl before).append word.builds (mild_group _)
  have bounds : bound 0 ++ ',' :: (bound 35 ++ ['\x7d']) = ['0', ',', '3', '5', '\x7d'] := by
    decide
  have read : lexRepeat Pattern.flags '\x7b' ⟨['0', ',', '3', '5', '\x7d'], 0⟩ =
      .ok (.repeating 0 35 .greedy, ⟨[], 5⟩) := by
    rfl
  have more := builds_times next.offers bounds read
  have whole :=
    (((builds_of_standsAlone around.start rfl before).append_taking word
      (mild_group _)).append more (mild_times _ _ _)).append
      (builds_of_standsAlone around.stop rfl before) (mild_group _)
  delta Ingredients.contract
  rw [sound.usual]
  exact whole

/-! ## All of them -/

/-- The names of the groups of a composite expression. -/
def compositeNames (parts : Ingredients) : List (List Char) :=
  if parts.licenses.isEmpty then commonNames else groupName .knownLicense 1 :: commonNames

/-- What is looked for behind labels of licences takes a character. -/
theorem offers_notices
    (sound : parts.Sound)
    (newAuthor : before.lookup (groupName .author 1) = none)
    (newOwners : areNew (enlist before (groupName .author 1)) copyrightNames = true) :
    OffersTaking false Pattern.flags before
      (enlistAll (enlist before (groupName .author 1)) copyrightNames)
      (oneOf [group parts.author, group parts.copyright, group parts.contract]) := by
  have author := builds_author sound newAuthor
  have copyright := builds_copyright sound newOwners
  rw [oneOf_cons, oneOf_pair]
  exact author.grouped.bar (copyright.grouped.bar (builds_contract sound).grouped)

/-- What is looked for besides known licences takes a character. -/
theorem offers_common
    (sound : parts.Sound)
    (new : areNew before commonNames = true) :
    OffersTaking false Pattern.flags before (enlistAll before commonNames)
      (oneOf
        [group parts.genericLicense, group parts.licenseLabel, group parts.author,
          group parts.copyright, group parts.contract]) := by
  obtain ⟨newGeneric, new⟩ := new_of_areNew new
  obtain ⟨newLabel, new⟩ := new_of_areNew new
  obtain ⟨newAuthor, newOwners⟩ := new_of_areNew new
  have generic := builds_genericLicense sound newGeneric
  have label := builds_licenseLabel sound newLabel
  rw [oneOf_cons, oneOf_cons]
  exact generic.grouped.bar (label.grouped.bar (offers_notices sound newAuthor newOwners))

/-- Inline forms that can stand anywhere make up a composite expression that compiles. Its groups
are those of the builder, their borders lie in order, and they capture nothing outside of a
match. -/
theorem compile_composite
    (sound : parts.Sound) :
    ∃ regex, Regex.compile Pattern.flags parts.composite = .ok regex ∧
      regex.names = enlistAll [] (compositeNames parts) ∧
      regex.groupCount = (compositeNames parts).length ∧
      regex.node.Fits 0 (2 * (compositeNames parts).length) ∧
      ∀ text, (regex.node.ways text).Le .enclosing := by
  have around := surroundings
  have offers : Offers false Pattern.flags [] (enlistAll [] (compositeNames parts))
      parts.composite := by
    rw [Ingredients.composite, Ingredients.alternatives, compositeNames]
    cases known : parts.licenses.isEmpty with
    | true => exact (offers_common sound around.common).offers
    | false =>
        have one : parts.licenses ≠ [] := by
          intro none
          rw [none] at known
          cases known
        have captured : Builds true Pattern.flags [] _ _ :=
          builds_capture .knownLicense 1 (Plain.oneOf one sound.licenses) rfl
        exact captured.grouped.bar (offers_common sound around.known).offers
  obtain ⟨regex, compiled, names, count, fits, encloses⟩ := offers.compile
  rw [length_enlistAll_nil] at count fits
  exact ⟨regex, compiled, names, count, fits, encloses⟩

end NoticeScan.Scan
