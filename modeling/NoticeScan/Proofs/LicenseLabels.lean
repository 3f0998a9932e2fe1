import NoticeScan.Proofs.Alternation
import NoticeScan.Proofs.KnownOwners
import NoticeScan.Proofs.Outlines
import NoticeScan.Proofs.Window

/-!
# Labels of licences

What is captured behind the label of a licence are names with gaps between them, up to the line
feed that ends the line of the last one. That the label stands on one line is not asked for: a gap
may hold line feeds, and so may a name in quotation marks.
-/

namespace NoticeScan

open NoticeScan.Regex NoticeScan.Pattern NoticeScan.Scan NoticeScan.Text

/-! ## Names behind a label -/

namespace Scan

/-- The marks that open a quotation. -/
def openMarks : List Char :=
  ['\u00ab', '\u2018', '\u201b', '\u201c', '\u201f', '\u2039', '\u2e02', '\u2e04', '\u2e09',
    '\u2e0c', '\u2e1c', '\u2e20']

/-- The marks that close a quotation. -/
def closeMarks : List Char :=
  ['\u00bb', '\u2019', '\u201d', '\u203a', '\u2e03', '\u2e05', '\u2e0a', '\u2e0d', '\u2e1d',
    '\u2e21']

/-- The punctuation marks that may stand behind a name. -/
def nameMarks : List Char :=
  [',', ';', ':']

/-- A quotation between its marks: at most 65 characters, none of which closes it. -/
def IsQuotation (words : List Char) : Prop :=
  ∃ opening ∈ openMarks, ∃ inner closing, inner.length ≤ 65 ∧ (∀ c ∈ inner, c ∉ closeMarks) ∧
    closing ∈ closeMarks ∧ words = opening :: (inner ++ [closing])

/-- A quotation, with a punctuation mark behind it or not. -/
def IsQuoted (name : List Char) : Prop :=
  ∃ words mark, IsQuotation words ∧ (mark = [] ∨ ∃ c ∈ nameMarks, mark = [c]) ∧
    name = words ++ mark

/-- Names with gaps of white space between them. Those that are not quoted stay on a line. -/
structure LabelNames where
  first : List Char
  /-- Each further name with the gap in front of it. -/
  rest : List (List Char × List Char)
  few : rest.length ≤ 35
  gaps : ∀ part ∈ rest, 1 ≤ part.1.length ∧ part.1.length ≤ 47 ∧ ∀ c ∈ part.1, isBlank c = true
  quoted : ∀ name ∈ first :: rest.map Prod.snd, '\n' ∈ name → IsQuoted name

namespace LabelNames

/-- The names and gaps as one text. -/
def text (names : LabelNames) : List Char :=
  names.first ++ names.rest.flatMap fun part => part.1 ++ part.2

/-- No gap and no quoted name holds a line feed. -/
def OneLine (names : LabelNames) : Prop :=
  (∀ part ∈ names.rest, '\n' ∉ part.1) ∧
    ∀ name ∈ names.first :: names.rest.map Prod.snd, IsQuoted name → '\n' ∉ name

/-- A line ends among the names only in a gap or in a quotation. -/
theorem oneLine_iff
    (names : LabelNames) :
    names.OneLine ↔ '\n' ∉ names.text := by
  have inText : '\n' ∈ names.text ↔
      (∃ part ∈ names.rest, '\n' ∈ part.1) ∨
        ∃ name ∈ names.first :: names.rest.map Prod.snd, '\n' ∈ name := by
    rw [text, List.mem_append, List.mem_flatMap, List.exists_mem_cons_iff]
    simp only [List.mem_append, List.mem_map, exists_exists_and_eq_and, and_or_left, exists_or]
    exact or_left_comm
  rw [inText, OneLine, not_or]
  refine and_congr (by simp) ⟨fun free => ?_, fun free => ?_⟩
  · rintro ⟨name, listed, feed⟩
    exact free name listed (names.quoted name listed feed) feed
  · exact fun name listed _ feed => free ⟨name, listed, feed⟩

end LabelNames

end Scan

/-! ## Expressions of names -/

namespace Regex

/-- Whether a test lets none but some characters pass. -/
def CharTest.passesOnly (some : List Char) : CharTest → Bool
  | .listed false points => points.all (some.map Char.toNat).contains
  | .fulfils false conditions => conditions.all fun condition =>
      match condition with
      | .point x => (some.map Char.toNat).contains x
      | _ => false
  | _ => false

theorem CharTest.mem_of_passesOnly
    {test : CharTest}
    {some : List Char}
    (only : test.passesOnly some = true)
    {c : Char}
    (passed : test.passes c = true) :
    c ∈ some := by
  have among : (some.map Char.toNat).contains c.toNat = true → c ∈ some := by
    intro listed
    obtain ⟨d, member, same⟩ := List.mem_map.mp (List.contains_iff_mem.mp listed)
    rw [← Char.toNat_inj.mp same]
    exact member
  unfold passesOnly at only
  split at only
  · rename_i points
    rw [passes, Bool.bne_false, List.contains_iff_mem] at passed
    exact among (List.all_eq_true.mp only _ passed)
  · rename_i conditions
    rw [passes, Bool.bne_false, List.any_eq_true] at passed
    obtain ⟨condition, listed, holds⟩ := passed
    have asked := List.all_eq_true.mp only condition listed
    split at asked
    · rw [Condition.holds, beq_iff_eq] at holds
      exact among (holds ▸ asked)
    · cases asked
  · cases only

namespace Node

/-- Whether an expression is a quotation between its marks. -/
def isQuotation : Node → Bool
  | .seq (.char opening) (.seq (.repeated _ 0 (some 65) (.char inner)) (.char closing)) =>
      opening.passesOnly openMarks && closeMarks.all (fun c => !inner.passes c) &&
        closing.passesOnly closeMarks
  | _ => false

/-- Whether an expression chooses from quotations and from what stays on a line. -/
def isWords : Node → Bool
  | .alt first second => first.isWords && second.isWords
  | node => node.isQuotation || node.avoids '\n'

/-- Whether an expression is a punctuation mark that may be missing. -/
def isMark : Node → Bool
  | .repeated _ 0 (some 1) (.char test) => test.passesOnly nameMarks
  | _ => false

/-- Whether an expression is a gap between names. -/
def isGap : Node → Bool
  | .repeated _ 1 (some 47) (.char test) =>
      test == .fulfils false [.category .space false false]
  | _ => false

/-- Whether an expression is a name and up to 35 more, with gaps between them. -/
def isNames : Node → Bool
  | .seq words (.seq mark (.repeated _ 0 (some 35) (.seq gap (.seq words' mark')))) =>
      words.isWords && mark.isMark && gap.isGap && words'.isWords && mark'.isMark
  | _ => false

variable {node : Node} {word : List Char}

theorem isQuotation_of_mem
    (is : node.isQuotation = true)
    (member : word ∈ node.outline) :
    IsQuotation word := by
  unfold isQuotation at is
  split at is
  · rename_i opening greed inner closing
    simp only [Bool.and_eq_true] at is
    obtain ⟨⟨opens, stays⟩, closes⟩ := is
    obtain ⟨_, ⟨c, passedOpening, rfl⟩, _, ⟨words, ⟨count, -, most, power⟩, _,
      ⟨d, passedClosing, rfl⟩, rfl⟩, rfl⟩ := member
    obtain ⟨length, each⟩ := mem_letters_pow.mp power
    refine ⟨c, CharTest.mem_of_passesOnly opens passedOpening, words, d, ?_, ?_,
      CharTest.mem_of_passesOnly closes passedClosing, rfl⟩
    · rw [length]
      exact most 65 rfl
    · intro other inside closing
      have shut := List.all_eq_true.mp stays other closing
      rw [each other inside] at shut
      cases shut
  · cases is

theorem quotation_of_isWords
    (is : node.isWords = true)
    (member : word ∈ node.outline)
    (feed : '\n' ∈ word) :
    IsQuotation word := by
  have single : ∀ {other : Node}, (other.isQuotation || other.avoids '\n') = true →
      word ∈ other.outline → IsQuotation word := by
    intro other either inside
    rcases Bool.or_eq_true_iff.mp either with quotation | avoids
    · exact isQuotation_of_mem quotation inside
    · exact absurd feed (Node.not_mem_of_avoids avoids word inside)
  induction node with
  | alt first second ofFirst ofSecond =>
      obtain ⟨left, right⟩ := Bool.and_eq_true_iff.mp is
      rcases member with one | other
      · exact ofFirst left one
      · exact ofSecond right other
  | _ => exact single is member

theorem mark_of_isMark
    (is : node.isMark = true)
    (member : word ∈ node.outline) :
    word = [] ∨ ∃ c ∈ nameMarks, word = [c] := by
  unfold isMark at is
  split at is
  · rename_i greed test
    obtain ⟨count, -, most, power⟩ := member
    obtain ⟨length, each⟩ := mem_letters_pow.mp power
    have atMostOne : word.length ≤ 1 := length ▸ most 1 rfl
    cases word with
    | nil => exact Or.inl rfl
    | cons c others =>
        obtain rfl : others = [] := List.length_eq_zero_iff.mp (by simpa using atMostOne)
        exact Or.inr ⟨c, CharTest.mem_of_passesOnly is (each c List.mem_cons_self), rfl⟩
  · cases is

theorem blanks_of_isGap
    (is : node.isGap = true)
    (member : word ∈ node.outline) :
    1 ≤ word.length ∧ word.length ≤ 47 ∧ ∀ c ∈ word, isBlank c = true := by
  unfold isGap at is
  split at is
  · rename_i greed test
    rw [beq_iff_eq] at is
    subst is
    obtain ⟨count, least, most, power⟩ := member
    obtain ⟨rfl, each⟩ := mem_letters_pow.mp power
    refine ⟨least, most 47 rfl, fun c inside => ?_⟩
    have passed := each c inside
    simpa [CharTest.passes, Condition.holds, Category.holds, isBlank] using passed
  · cases is

/-- Pieces that are words of a product, each one taken apart. -/
theorem exists_parts
    {one other : Language Char}
    {pieces : List (List Char)}
    (each : ∀ piece ∈ pieces, piece ∈ one * other) :
    ∃ parts : List (List Char × List Char), pieces = parts.map (fun part => part.1 ++ part.2) ∧
      ∀ part ∈ parts, part.1 ∈ one ∧ part.2 ∈ other := by
  induction pieces with
  | nil => exact ⟨[], rfl, List.forall_mem_nil _⟩
  | cons piece more inductionHypothesis =>
      obtain ⟨here, later⟩ := List.forall_mem_cons.mp each
      obtain ⟨front, inOne, back, inOther, rfl⟩ := Language.mem_mul.mp here
      obtain ⟨parts, rfl, fine⟩ := inductionHypothesis later
      exact ⟨(front, back) :: parts, rfl, List.forall_mem_cons.mpr ⟨⟨inOne, inOther⟩, fine⟩⟩

/-- What an expression of names takes are names behind a label. -/
theorem exists_labelNames
    (is : node.isNames = true)
    (member : word ∈ node.outline) :
    ∃ names : LabelNames, names.text = word := by
  have quoted : ∀ {words mark : Node} {name : List Char}, words.isWords = true →
      mark.isMark = true → name ∈ words.outline * mark.outline → '\n' ∈ name →
      IsQuoted name := by
    intro words mark name areWords isMark both feed
    obtain ⟨front, one, back, other, rfl⟩ := Language.mem_mul.mp both
    have marked := mark_of_isMark isMark other
    refine ⟨front, back, quotation_of_isWords areWords one ?_, marked, rfl⟩
    rcases List.mem_append.mp feed with inFront | inBack
    · exact inFront
    · rcases marked with rfl | ⟨c, listed, rfl⟩
      · cases inBack
      · rw [← List.mem_singleton.mp inBack] at listed
        exact absurd listed (by decide)
  unfold isNames at is
  split at is
  · rename_i words mark greed gap words' mark'
    simp only [Bool.and_eq_true] at is
    obtain ⟨⟨⟨⟨areWords, isMark⟩, isGap⟩, areWords'⟩, isMark'⟩ := is
    simp only [outline, ← mul_assoc] at member
    obtain ⟨first, inFirst, _, ⟨count, -, most, power⟩, rfl⟩ := Language.mem_mul.mp member
    obtain ⟨pieces, rfl, rfl, each⟩ := Language.mem_pow.mp power
    rw [mul_assoc] at each
    obtain ⟨rest, rfl, fine⟩ := exists_parts each
    refine ⟨⟨first, rest, ?_, ?_, ?_⟩, ?_⟩
    · rw [← List.length_map]
      exact most 35 rfl
    · exact fun part listed => blanks_of_isGap isGap (fine part listed).1
    · refine List.forall_mem_cons.mpr ⟨quoted areWords isMark inFirst, ?_⟩
      exact List.forall_mem_map.mpr fun part listed =>
        quoted areWords' isMark' (fine part listed).2
    · rw [LabelNames.text, List.flatMap_def]
  · cases is

end Node

end Regex

/-! ## The alternative for labels -/

namespace Scan

variable {parts : Ingredients} {before : List (List Char × Nat)}

set_option maxRecDepth 10000 in
theorem isNames_labelNames :
    (nodeOf? labelFlags labelNames).any Node.isNames = true := by
  delta labelNames name url email dottedNumber hostEnds openQuote closeQuote notCloseQuote
  simp only [List.map_cons, List.map_nil]
  delta anyOf noneOf caseGroup times group oneOf letter letterOrDigit nameChar
    emailChar urlChar upperChar openQuoteMembers closeQuoteMembers
  -- The texts are spelled out first, since taking literals apart is slow.
  simp only [String.reduceToList, String.toList_append]
  decide +kernel

theorem nodeOf_lineEnd :
    nodeOf? labelFlags "\\n".toList = some (.char (.listed false [10])) := by
  decide +kernel

/-- Ways that pass the group of a number only around names behind a label, and end with the line
feed behind them. -/
def labelWays (number : Nat) (text : Array Char) : Ways := fun _ stop passes =>
  ∀ pass ∈ passes, pass.group = number →
    pass.start ≤ pass.stop ∧ text[pass.stop]? = some '\n' ∧ stop = pass.stop + 1 ∧
      ∃ names : LabelNames, names.text = (text.extract pass.start pass.stop).toList

theorem without_labelWays
    (number : Nat)
    (text : Array Char) :
    (Ways.without number).Le (labelWays number text) :=
  fun _ _ _ way pass member same => absurd same (way pass member)

/-- A group of a slot around a closed piece without bars. -/
theorem builds_capture_of_nodeOf?
    {flags : Flags}
    {piece : Expr}
    {node : Node}
    (slot : Slot)
    (number : Nat)
    (is : nodeOf? flags piece = some node)
    (terse : flags.verbose = false)
    (new : before.lookup (groupName slot number) = none) :
    BuildsVia (fun text => .inGroup (before.length + 1) (node.ways text)) true flags before
      (enlist before (groupName slot number)) (capture slot number piece) := by
  obtain ⟨spelled, isName⟩ := spelled_of_namesGroup (namesGroup_groupName slot number)
  rw [capture_eq]
  exact builds_captured_of_nodeOf? is terse spelled isName new

/-- A group around names, with a line feed behind it. -/
theorem inGroup_labelWays
    {node : Node}
    (areNames : node.isNames = true)
    (bare : node.bare = true)
    (number : Nat)
    (text : Array Char) :
    ((Ways.silent.andThen (.inGroup number (node.ways text))).andThen
      (Node.ways text (.char (.listed false [10])))).Le (labelWays number text) := by
  rintro start stop passes ⟨last, _, _, ⟨first, lead, _, silent, ⟨inner, way, rfl⟩, rfl⟩,
    ⟨⟨c, here, feed⟩, rfl, rfl⟩, rfl⟩ pass member -
  obtain rfl : lead = [] := silent
  obtain rfl : inner = [] := Node.silent_of_bare bare text _ _ _ way
  obtain rfl := List.mem_singleton.mp member
  have lineFeed : c = '\n' := by
    rw [CharTest.passes, Bool.bne_false, List.contains_iff_mem, List.mem_singleton] at feed
    exact Char.toNat_inj.mp feed
  exact ⟨node.ways_le text _ _ _ way, lineFeed ▸ here, rfl,
    Node.exists_labelNames areNames (Node.extract_mem_outline way)⟩

/-- The alternative for labels is a group with flags of its own, which passes the group for labels
around the names. -/
theorem exists_scoped_licenseLabel
    (sound : parts.Sound)
    (new : before.lookup (groupName .licenseLabel 1) = none) :
    ∃ items, Adds true Pattern.flags before (enlist before (groupName .licenseLabel 1))
        parts.licenseLabel [.single (.scoped items)] ∧
      Brings Pattern.flags (2 * before.length)
        (2 * (enlist before (groupName .licenseLabel 1)).length)
        (labelWays (before.length + 1)) [.scoped items] := by
  have around := surroundings
  obtain ⟨node, is, areNames⟩ := (Option.any_eq_true _ _).mp isNames_labelNames
  have lead := BuildsVia.silent (buildsTaking_of_takesAlone around.label rfl before).builds
  have captured := builds_capture_of_nodeOf? .licenseLabel 1 is rfl new
  have ends := builds_of_nodeOf? nodeOf_lineEnd rfl (enlist before (groupName .licenseLabel 1))
  have inside := (lead.append captured (mild_capture _ _ _)).append ends (mild_escape _ _)
  obtain ⟨branches, some, splits, brings⟩ := inside.offers
  rw [licenseLabel_eq sound]
  refine ⟨_, splits.flagged rfl listed_labelFlags (by decide), ?_⟩
  exact (Brings.ofBranches some brings).inScope.imp
    (inGroup_labelWays areNames (bare_of_nodeOf? is rfl) _)

/-- The alternative for labels passes its group around the names. -/
theorem builds_licenseLabel_labelWays
    (sound : parts.Sound)
    (new : before.lookup (groupName .licenseLabel 1) = none) :
    BuildsVia (labelWays (before.length + 1)) true Pattern.flags before
      (enlist before (groupName .licenseLabel 1)) parts.licenseLabel := by
  obtain ⟨items, adds, brings⟩ := exists_scoped_licenseLabel sound new
  exact ⟨_, adds, brings⟩

/-- Besides known licences, only the alternative for labels passes its group. -/
theorem offers_common_labelWays
    (sound : parts.Sound)
    (new : areNew before commonNames = true) :
    OffersVia (labelWays (before.length + 2)) false Pattern.flags before
      (enlistAll before commonNames)
      (oneOf
        [group parts.genericLicense, group parts.licenseLabel, group parts.author,
          group parts.copyright, group parts.contract]) := by
  obtain ⟨newGeneric, new⟩ := new_of_areNew new
  obtain ⟨newLabel, new⟩ := new_of_areNew new
  obtain ⟨newAuthor, newOwners⟩ := new_of_areNew new
  have one : (enlist before (groupName .genericLicense 1)).length = before.length + 1 :=
    List.length_append
  have two : (enlist (enlist before (groupName .genericLicense 1))
      (groupName .licenseLabel 1)).length = before.length + 2 := by
    rw [enlist, List.length_append, one]
    rfl
  have generic : OffersTaking false Pattern.flags _ _ _ :=
    (builds_genericLicense sound newGeneric).grouped
  have label := builds_licenseLabel_labelWays sound newLabel
  rw [one] at label
  have notices := (offers_notices sound newAuthor newOwners).offers
  rw [oneOf_cons, oneOf_cons]
  exact ((OffersVia.without generic.offers (Or.inr (by omega))).imp (without_labelWays _)).bar
    (label.grouped.bar
      ((OffersVia.without notices (Or.inl (by omega))).imp (without_labelWays _)))

/-- Without known licences, what is found of a licence by its lead or its label comes before
everything else. -/
theorem matchAt_composite
    (sound : parts.Sound)
    (none : parts.licenses = [])
    {front whole : Regex}
    (compiledFront : Regex.compile Pattern.flags
      (oneOf [group parts.genericLicense, group parts.licenseLabel]) = .ok front)
    (compiledWhole : Regex.compile Pattern.flags parts.composite = .ok whole)
    {text : Array Char}
    {moving : Bool}
    {pos : Nat}
    {found : Found}
    (is : front.matchAt text moving pos = some found) :
    whole.matchAt text moving pos = some found := by
  obtain ⟨newGeneric, new⟩ := new_of_areNew surroundings.common
  obtain ⟨newLabel, new⟩ := new_of_areNew new
  obtain ⟨newAuthor, newOwners⟩ := new_of_areNew new
  have generic : OffersTaking false Pattern.flags _ _ _ :=
    (builds_genericLicense sound newGeneric).grouped
  obtain ⟨branches, -, splitsGeneric, bringsGeneric⟩ := generic.offers
  obtain ⟨items, adds, bringsLabel⟩ := exists_scoped_licenseLabel sound newLabel
  have splitsLabel : Splits false Pattern.flags _ _ (group parts.licenseLabel)
      [[.scoped items]] :=
    .of_adds (Splits.of_adds adds).group
  obtain ⟨more, someNotices, splitsNotices, bringsNotices⟩ :=
    (offers_notices sound newAuthor newOwners).offers
  have splits := splitsGeneric.bar splitsLabel
  rw [← oneOf_pair] at splits
  have composite : parts.composite =
      oneOf [group parts.genericLicense, group parts.licenseLabel] ++
        '|' :: oneOf [group parts.author, group parts.copyright, group parts.contract] := by
    rw [Ingredients.composite, Ingredients.alternatives, none, oneOf_pair, List.append_assoc]
    exact (oneOf_cons _ _ _).trans (congrArg _ (congrArg _ (oneOf_cons _ _ _)))
  rw [composite] at compiledWhole
  have label : [.scoped items] ∈ branches ++ [[.scoped items]] :=
    List.mem_append_right _ List.mem_cons_self
  refine splits.matchAt_bar splitsNotices someNotices ⟨_, label, standsOut_single rfl⟩ ?_
    compiledFront compiledWhole is
  intro branch member
  rcases List.mem_append.mp member with early | later
  · rcases List.mem_append.mp early with lead | last
    · exact ⟨(bringsGeneric branch lead).written, (bringsGeneric branch lead).late⟩
    · rw [List.mem_singleton.mp last]
      exact ⟨bringsLabel.written, bringsLabel.late⟩
  · exact ⟨(bringsNotices branch later).written, (bringsNotices branch later).late⟩

/-- The alternatives for licences that are not known, within the usual bounds. -/
def usualLicenses : Expr :=
  oneOf
    [group (Ingredients.genericLicense ⟨{}, [], [], []⟩),
      group (Ingredients.licenseLabel ⟨{}, [], [], []⟩)]

theorem usualLicenses_eq
    (sound : parts.Sound) :
    usualLicenses = oneOf [group parts.genericLicense, group parts.licenseLabel] := by
  delta usualLicenses Ingredients.genericLicense Ingredients.licenseLabel Ingredients.blanks1
  rw [sound.usual]

set_option maxRecDepth 100000 in
/-- A label of two names on two lines. -/
theorem matchAt_twoLines :
    ∃ front, Regex.compile Pattern.flags usualLicenses = .ok front ∧
      ∃ found, front.matchAt "license: Foo\nBar\n".toList.toArray false 0 = some found ∧
        found.group? 2 = some (9, 16) := by
  suffices matched : (Regex.compile Pattern.flags usualLicenses).toOption.any (fun front =>
      (front.matchAt "license: Foo\nBar\n".toList.toArray false 0).any fun found =>
        found.group? 2 == some (9, 16)) = true by
    obtain ⟨front, compiled, found, is, captured⟩ := exists_matchAt_of_any matched
    exact ⟨front, compiled, found, is, beq_iff_eq.mp captured⟩
  delta usualLicenses Ingredients.genericLicense Ingredients.licenseLabel Ingredients.blanks1
    capture name url email dottedNumber hostEnds openQuote closeQuote notCloseQuote blank optional
  simp only [List.map_cons, List.map_nil]
  delta anyOf noneOf caseGroup blankMembers times group oneOf letter letterOrDigit nameChar
    emailChar urlChar upperChar openQuoteMembers closeQuoteMembers
  simp only [String.reduceToList, String.toList_append]
  decide +kernel

/-- The number of the group for labels. -/
def labelNumber (parts : Ingredients) : Nat :=
  if parts.licenses.isEmpty then 2 else 3

/-- A composite expression passes the group for labels only around names. -/
theorem compile_composite_labelWays
    (sound : parts.Sound) :
    ∃ regex, Regex.compile Pattern.flags parts.composite = .ok regex ∧
      ∀ text, (regex.node.ways text).Le (labelWays (labelNumber parts) text) := by
  have around := surroundings
  suffices offers : OffersVia (labelWays (labelNumber parts)) false Pattern.flags []
      (enlistAll [] (compositeNames parts)) parts.composite by
    obtain ⟨regex, compiled, -, -, -, ways⟩ := offers.compile
    exact ⟨regex, compiled, ways⟩
  rw [Ingredients.composite, Ingredients.alternatives, compositeNames, labelNumber]
  cases known : parts.licenses.isEmpty with
  | true => exact offers_common_labelWays sound around.common
  | false =>
      have one : parts.licenses ≠ [] := by
        intro none
        rw [none] at known
        cases known
      have captured : Builds true Pattern.flags [] _ _ :=
        builds_capture .knownLicense 1 (Plain.oneOf one sound.licenses) rfl
      have grouped : Offers false Pattern.flags [] _ _ := captured.grouped
      exact ((OffersVia.without grouped (Or.inr (by decide))).imp (without_labelWays _)).bar
        (offers_common_labelWays sound around.known)

/-- The group for labels is the only one with its slot. -/
theorem eq_labelNumber
    {slots : List (Nat × Slot)}
    {group : Nat}
    (table : Scanner.slotTable (enlistAll [] (compositeNames parts)) = .ok slots)
    (named : slots.lookup group = some .licenseLabel) :
    group = labelNumber parts := by
  have only : (Scanner.slotTable (enlistAll [] (compositeNames parts))).toOption.all
      (fun slots => slots.all fun entry =>
        entry.2 != .licenseLabel || entry.1 == labelNumber parts) = true := by
    rw [compositeNames, labelNumber]
    cases parts.licenses.isEmpty <;> decide +kernel
  rw [table] at only
  obtain ⟨before, after, rfl, -⟩ := List.lookup_eq_some_iff.mp named
  have entry := List.all_eq_true.mp only (group, .licenseLabel)
    (List.mem_append_right _ List.mem_cons_self)
  simpa using entry

end Scan

/-! ## Findings of labels -/

namespace Scanner

variable {rules : RuleSet} {scanner : Scanner} {window : Window} {found : Regex.Found}
  {group start stop : Nat}

/-- What the group for labels captures are names, with the line feed behind them that ends the
match. -/
theorem labelNames_of_build
    {size threshold : Int}
    (made : build rules {} size threshold = .ok scanner)
    (contained : rules.SelfContained)
    (member : found ∈ scanner.taken window)
    (named : scanner.slot? group = some .licenseLabel)
    (captured : found.group? group = some (start, stop)) :
    start ≤ stop ∧ window.text[stop]? = some '\n' ∧ found.stop = stop + 1 ∧
      ∃ names : LabelNames, names.text = slice window.text start stop := by
  obtain ⟨parts, sound, -, composite⟩ := ingredients_of_build made contained
  obtain ⟨regex, compiled, ways⟩ := compile_composite_labelWays sound
  obtain rfl : regex = scanner.composite := Except.ok.inj (compiled.symm.trans composite)
  obtain ⟨other, compiledToo, names, -, fits, -⟩ := compile_composite sound
  obtain rfl : other = scanner.composite := Except.ok.inj (compiledToo.symm.trans composite)
  have table := (built_of_build made).slots
  rw [names] at table
  have number : group = labelNumber parts := eq_labelNumber table named
  have positive : 0 < group := by
    rw [number, labelNumber]
    split <;> decide
  obtain ⟨passes, tells⟩ := findAll_tells fits ((taken_findAll scanner window).subset member)
  obtain ⟨passed, -⟩ := (group?_eq_some_iff tells positive).mp captured
  exact ways window.text _ _ _ tells.1 _ passed number

/-- A label of a licence is found up to a line feed, but it need not stand on one line. It is names
with gaps between them, and covers as many further lines as there are line feeds in gaps and in
quoted names. So a finding of it has one line just when there are none. -/
theorem licenseLabel_lines
    {size threshold : Int}
    (made : build rules {} size threshold = .ok scanner)
    (contained : rules.SelfContained)
    (text : List Char) :
    let window := Window.ofText text
    ∃ report, scanner.scanWindow window = .ok report ∧
      ∀ found ∈ scanner.taken window, ∀ group start stop,
        scanner.slot? group = some .licenseLabel → found.group? group = some (start, stop) →
        let finding := scanner.captureFinding window found .licenseLabel start stop
        (scanner.Counts window start stop → finding ∈ report.findings) ∧
        text[stop]? = some '\n' ∧ found.stop = stop + 1 ∧
        ∃ names : LabelNames, names.text = slice window.text start stop ∧
          finding.endLine = finding.startLine + names.text.count '\n' ∧
          (finding.startLine = finding.endLine ↔ names.OneLine) := by
  intro window
  obtain ⟨slotted, -, -⟩ := composite_of_build made contained
  obtain ⟨report, done⟩ := slotted.scanWindow window
  refine ⟨report, done, ?_⟩
  intro found member group start stop named captured finding
  obtain ⟨ordered, feed, ends, names, same⟩ :=
    labelNames_of_build made contained member named captured
  have lines : finding.endLine = finding.startLine + names.text.count '\n' := by
    have first : finding.startLine = Reader.lineIn text start := rfl
    have last : finding.endLine = Reader.lineIn text stop := rfl
    have sliced : names.text = (text.drop start).take (stop - start) := by
      rw [same, slice, Array.toList_extract, List.extract_eq_take_drop]
      rfl
    rw [first, last, sliced, ← Reader.lineIn_add, Nat.sub_add_cancel ordered]
  refine ⟨capture_reported (built_of_build made) done member named captured, ?_, ends, names, same,
    lines, ?_⟩
  · rw [← List.getElem?_toArray]
    exact feed
  · rw [lines, Nat.left_eq_add, List.count_eq_zero, names.oneLine_iff]

/-- The names behind a label go on behind the end of its line. -/
theorem licenseLabel_lines_twoLines :
    let window := Window.ofText "license: Foo\nBar\n".toList
    ∃ scanner report found, ofRules {} = .ok scanner ∧ RuleSet.SelfContained {} ∧
      scanner.scanWindow window = .ok report ∧ found ∈ scanner.taken window ∧
      scanner.slot? 2 = some .licenseLabel ∧ found.group? 2 = some (9, 16) ∧
      ∃ names : LabelNames, names.text = "Foo\nBar".toList ∧ ¬ names.OneLine ∧
        ∃ finding ∈ report.findings, finding.startLine = 1 ∧ finding.endLine = 2 := by
  intro window
  have checked : RuleSet.issues {} = .ok [] := by decide +kernel
  have contained : RuleSet.SelfContained {} := by decide +kernel
  obtain ⟨scanner, made, built⟩ := exists_scanner checked contained
  have unlicensed (role : Role) : scanner.licenses role = [] := by
    have compiled := built.licenses role
    cases role <;> exact (Except.ok.inj compiled).symm
  have unexcluded : scanner.exclusions = [] := (Except.ok.inj built.exclusions).symm
  obtain ⟨parts, sound, licenses, composite⟩ := ingredients_of_build made contained
  have none : parts.licenses = [] := by
    rw [licenses, bodies]
    simp [unlicensed, compositeOrder]
  -- The label is matched first, since no lead of a licence is at its start.
  obtain ⟨front, compiled, found, is, captured⟩ := matchAt_twoLines
  rw [usualLicenses_eq sound] at compiled
  have first := next?_of_matchAt (matchAt_composite sound none compiled composite is)
  have member : found ∈ scanner.taken window :=
    (taken_of_next? first).subset (List.mem_singleton_self found)
  have named : scanner.slot? 2 = some .licenseLabel := by
    obtain ⟨other, compiledToo, names, -⟩ := compile_composite sound
    obtain rfl : other = scanner.composite := Except.ok.inj (compiledToo.symm.trans composite)
    have table := built.slots
    rw [names, compositeNames, none] at table
    have second : (slotTable (enlistAll [] commonNames)).toOption.any (fun slots =>
        slots.lookup 2 == some .licenseLabel) = true := by
      decide +kernel
    have same : slotTable (enlistAll [] commonNames) = .ok scanner.slots := table
    rw [same] at second
    exact beq_iff_eq.mp second
  have counts : scanner.Counts window 9 16 := by
    refine ⟨by decide +kernel, ?_⟩
    rw [isExcluded, unexcluded]
    rfl
  obtain ⟨report, done, each⟩ := licenseLabel_lines made contained "license: Foo\nBar\n".toList
  obtain ⟨reported, -, -, names, same, -, oneLine⟩ := each found member 2 9 16 named captured
  have lines : (scanner.captureFinding window found .licenseLabel 9 16).startLine = 1 ∧
      (scanner.captureFinding window found .licenseLabel 9 16).endLine = 2 := by
    have first : Reader.lineIn "license: Foo\nBar\n".toList 9 = 1 := by decide +kernel
    have last : Reader.lineIn "license: Foo\nBar\n".toList 16 = 2 := by decide +kernel
    exact ⟨first, last⟩
  refine ⟨scanner, report, found, made, contained, done, member, named, captured, names, ?_, ?_,
    _, reported counts, lines⟩
  · exact same.trans (by decide +kernel)
  · rw [← oneLine, lines.1, lines.2]
    decide

end Scanner

end NoticeScan
