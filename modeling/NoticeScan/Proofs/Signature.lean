import NoticeScan.Proofs.Checked
import NoticeScan.Proofs.Contributions
import NoticeScan.Proofs.Encoded
import NoticeScan.RuleSet.Signature

/-!
# What a signature tells apart

The signature of a rule set is the digest of its patterns, written line by line under the headings
of their lists. So rule sets are told apart as far as their lines are: the patterns can be read off
again if each of them takes up one line that is not written like a heading. A pattern with a line
feed, one that reads like a heading and an empty exclusion are taken for something else.
-/

namespace NoticeScan

open NoticeScan.Text

/-- Bytes that have the same digest only if they are the same. -/
def Sha256.Apart (first second : List UInt8) : Prop :=
  hexDigest first = hexDigest second → first = second

theorem Text.Utf8.encode_inj
    {first second : List Char} :
    Utf8.encode first = Utf8.encode second ↔ first = second := by
  refine ⟨fun same => ?_, congrArg _⟩
  have read := congrArg Utf8.decode same
  rw [Utf8.decode_encode, Utf8.decode_encode] at read
  exact List.map_injective_iff.mpr (fun _ _ equal => by cases equal; rfl) read

namespace RuleSet

/-! ## The lines of a signature text -/

/-- The lines of texts that have been joined by line feeds. -/
theorem splitOn_lines
    {texts : List (List Char)}
    (some : texts ≠ []) :
    (lines texts).splitOn '\n' = texts.flatMap (·.splitOn '\n') := by
  induction texts with
  | nil => exact absurd rfl some
  | cons text rest inductionHypothesis =>
      cases rest with
      | nil => rw [lines, List.intercalate_singleton, List.flatMap_singleton]
      | cons next others =>
          have joined : lines (text :: next :: others) = text ++ '\n' :: lines (next :: others) :=
            List.intercalate_cons_cons.trans (List.append_assoc _ _ _)
          rw [joined, List.splitOn_append_cons_self, inductionHypothesis (List.cons_ne_nil _ _)]
          rfl

/-- The line that the patterns of a list stand under. -/
def headline (place : Section) : List Char :=
  place.heading.toList ++ [':']

/-- The lines that the patterns of a list take up. A list without patterns takes up an empty
one. -/
def linesIn (rules : RuleSet) (place : Section) : List (List Char) :=
  match rules.get place with
  | [] => [[]]
  | patterns => patterns.flatMap (·.toList.splitOn '\n')

/-- All lines that a rule set is written on. -/
def writtenLines (rules : RuleSet) : List (List Char) :=
  Section.all.flatMap fun place => headline place :: rules.linesIn place

theorem splitOn_headline (place : Section) :
    (headline place).splitOn '\n' = [headline place] := by
  apply List.splitOn_eq_singleton
  rcases place with (_ | _ | _) | (_ | _ | _) | _ <;> decide

variable {rules first second : RuleSet}

theorem splitOn_sectionText (place : Section) :
    (rules.sectionText place).splitOn '\n' = headline place :: rules.linesIn place := by
  have spelled : rules.sectionText place =
      headline place ++ '\n' :: lines ((rules.get place).map String.toList) := by
    rw [sectionText, headline, List.append_assoc]
    rfl
  rw [spelled, List.splitOn_append_cons_self, splitOn_headline, List.singleton_append, linesIn]
  cases rules.get place with
  | nil => rfl
  | cons pattern others =>
      rw [splitOn_lines (by simp), List.flatMap_map]

theorem splitOn_signatureText :
    rules.signatureText.splitOn '\n' = rules.writtenLines := by
  have some : Section.all.map rules.sectionText ≠ [] := List.cons_ne_nil _ _
  rw [signatureText, splitOn_lines some, List.flatMap_map, writtenLines]
  exact congrArg (Section.all.flatMap ·) (funext splitOn_sectionText)

/-- Signature texts are the same if their lines are. -/
theorem signatureText_eq_iff_lines :
    first.signatureText = second.signatureText ↔ first.writtenLines = second.writtenLines := by
  rw [← splitOn_signatureText, ← splitOn_signatureText]
  refine ⟨congrArg _, fun same => ?_⟩
  have joined (text : List Char) : ['\n'].intercalate (text.splitOn '\n') = text :=
    List.intercalate_splitOn '\n'
  rw [← joined first.signatureText, same, joined]

/-! ## Reading the patterns off again -/

/-- Lists of lines under the same headings are the same one by one, as long as none of the lines
is a heading. -/
theorem eq_of_headed
    {places : List Section}
    {parts others : Section → List (List Char)}
    (plain : ∀ place, ∀ line ∈ parts place, ∀ other, line ≠ headline other)
    (plainOthers : ∀ place, ∀ line ∈ others place, ∀ other, line ≠ headline other)
    (same : (places.flatMap fun place => headline place :: parts place) =
      places.flatMap fun place => headline place :: others place) :
    ∀ place ∈ places, parts place = others place := by
  classical
  let ordinary : List Char → Bool := fun line => decide (∀ other, line ≠ headline other)
  have cut : ∀ {part : List (List Char)} (more : Section → List (List Char)) (rest : List Section),
      (∀ line ∈ part, ∀ other, line ≠ headline other) →
      (part ++ rest.flatMap fun place => headline place :: more place).takeWhile ordinary =
        part := by
    intro part more rest ordinaries
    rw [List.takeWhile_append_of_pos fun line member => decide_eq_true (ordinaries line member)]
    cases rest with
    | nil => exact List.append_nil part
    | cons next rest =>
        have stops : ordinary (headline next) = false := decide_eq_false fun none => none next rfl
        rw [List.flatMap_cons, List.cons_append,
          List.takeWhile_cons_of_neg (Bool.eq_false_iff.mp stops), List.append_nil]
  induction places with
  | nil => exact fun place none => absurd none List.not_mem_nil
  | cons place rest inductionHypothesis =>
      rw [List.flatMap_cons, List.flatMap_cons, List.cons_append, List.cons_append] at same
      have behind := (List.cons.inj same).2
      have here : parts place = others place := by
        rw [← cut parts rest (plain place), behind, cut others rest (plainOthers place)]
      rw [here] at behind
      exact List.forall_mem_cons.mpr
        ⟨here, inductionHypothesis (List.append_cancel_left behind)⟩

/-- Every pattern of a rule set takes up one line that is not written like a heading, and no list
seems to be without patterns. -/
structure Legible (rules : RuleSet) : Prop where
  oneLine : ∀ place ∈ Section.all, ∀ pattern ∈ rules.get place, '\n' ∉ pattern.toList
  noHeadline : ∀ place ∈ Section.all, ∀ pattern ∈ rules.get place, ∀ other ∈ Section.all,
    pattern.toList ≠ headline other
  noEmptyExclusion : "" ∉ rules.exclusions

/-- In a list of patterns that are widened, an empty one is an issue. -/
theorem ne_empty_of_noIssues
    {place : Section}
    {pattern : String}
    (checked : rules.issues = .ok [])
    (widened : place ≠ .exclusions)
    (member : pattern ∈ rules.get place) :
    pattern ≠ "" := by
  rintro rfl
  obtain ⟨part, each, none⟩ := flatMapM_eq_ok checked
  have inPlace := each place (Section.mem_all place)
  rw [List.flatMap_eq_nil_iff.mp none.symm place (Section.mem_all place)] at inPlace
  obtain ⟨issues, single, none⟩ := flatMapM_eq_ok inPlace
  have alone := single "" member
  rw [if_neg widened, List.flatMap_eq_nil_iff.mp none.symm "" member] at alone
  cases alone

namespace Legible

theorem ne_empty
    (legible : rules.Legible)
    (checked : rules.issues = .ok [])
    (place : Section) :
    "" ∉ rules.get place := by
  intro member
  by_cases exclusions : place = .exclusions
  · subst exclusions
    exact legible.noEmptyExclusion member
  · exact ne_empty_of_noIssues checked exclusions member rfl

theorem linesIn_eq
    (legible : rules.Legible)
    {place : Section}
    (some : rules.get place ≠ []) :
    rules.linesIn place = (rules.get place).map String.toList := by
  have one : ∀ pattern ∈ rules.get place,
      pattern.toList.splitOn '\n' = [pattern.toList] :=
    fun pattern member =>
      List.splitOn_eq_singleton (legible.oneLine place (Section.mem_all place) pattern member)
  rw [linesIn]
  split
  · rename_i none
    exact absurd none some
  · rw [List.flatMap_congr one, List.map_eq_flatMap]

theorem ne_headline
    (legible : rules.Legible)
    (place : Section) :
    ∀ line ∈ rules.linesIn place, ∀ other, line ≠ headline other := by
  intro line member other
  by_cases some : rules.get place = []
  · rw [linesIn, some] at member
    cases List.mem_singleton.mp member
    exact (List.append_ne_nil_of_right_ne_nil _ (List.cons_ne_nil _ _)).symm
  · rw [legible.linesIn_eq some] at member
    obtain ⟨pattern, among, rfl⟩ := List.mem_map.mp member
    exact legible.noHeadline place (Section.mem_all place) pattern among other
      (Section.mem_all other)

/-- The patterns of a list are known from its lines. -/
theorem get_eq
    (legible : first.Legible)
    (legibleOther : second.Legible)
    (checked : first.issues = .ok [])
    (checkedOther : second.issues = .ok [])
    {place : Section}
    (same : first.linesIn place = second.linesIn place) :
    first.get place = second.get place := by
  have empty : ∀ {rules other : RuleSet}, other.Legible → other.issues = .ok [] →
      rules.get place = [] → rules.linesIn place = other.linesIn place →
      other.get place = [] := by
    intro rules other legible checked none same
    by_contra some
    rw [legible.linesIn_eq some, linesIn, none] at same
    obtain ⟨pattern, listed, blank⟩ := List.map_eq_singleton_iff.mp same.symm
    rw [String.toList_eq_nil_iff] at blank
    subst blank
    exact legible.ne_empty checked place (by rw [listed]; exact List.mem_cons_self)
  by_cases none : first.get place = []
  · rw [none, empty legibleOther checkedOther none same]
  · have some : second.get place ≠ [] :=
      fun noneThere => none (empty legible checked noneThere same.symm)
    rw [legible.linesIn_eq none, legibleOther.linesIn_eq some] at same
    exact List.map_injective_iff.mpr (fun _ _ => String.toList_inj.mp) same

end Legible

/-- The texts of two rule sets without issues are the same just when their lines are. If every
pattern takes up a line of its own, that is when the rule sets are the same; then so do signatures
tell them apart, as far as digests tell bytes apart. -/
theorem signatureText_eq_iff
    (checked : first.issues = .ok [])
    (checkedOther : second.issues = .ok []) :
    (first.signatureText = second.signatureText ↔ first.writtenLines = second.writtenLines) ∧
      (first.Legible → second.Legible →
        (first.signatureText = second.signatureText ↔ first = second) ∧
          (Sha256.Apart (Utf8.encode first.signatureText) (Utf8.encode second.signatureText) →
            (first.signature = second.signature ↔ first = second))) := by
  refine ⟨signatureText_eq_iff_lines, fun legible legibleOther => ?_⟩
  have texts : first.signatureText = second.signatureText ↔ first = second := by
    refine ⟨fun same => eq_of_get fun place => ?_, congrArg _⟩
    have headed := eq_of_headed legible.ne_headline legibleOther.ne_headline
      (signatureText_eq_iff_lines.mp same)
    exact legible.get_eq legibleOther checked checkedOther (headed place (Section.mem_all place))
  refine ⟨texts, fun apart => ⟨fun same => ?_, congrArg _⟩⟩
  exact texts.mp (Utf8.encode_inj.mp (apart same))

/-- One licence of two words, and an exclusion. -/
def jointSample : RuleSet where
  thirdLicenses := ["Alpha Beta"]
  exclusions := ["x?"]

/-- Two licences of one word each. -/
def splitSample : RuleSet where
  thirdLicenses := ["Alpha", "Beta"]

theorem signatureText_eq_iff_samples :
    jointSample.issues = .ok [] ∧ splitSample.issues = .ok [] ∧
      jointSample.Legible ∧ splitSample.Legible ∧
      Sha256.Apart (Utf8.encode jointSample.signatureText)
        (Utf8.encode splitSample.signatureText) ∧
      (jointSample.signatureText = splitSample.signatureText ↔ jointSample = splitSample) ∧
      (jointSample.signature = splitSample.signature ↔ jointSample = splitSample) := by
  have checked : jointSample.issues = .ok [] := by decide +kernel
  have checkedOther : splitSample.issues = .ok [] := by decide +kernel
  have legible : jointSample.Legible := ⟨by decide, by decide, by decide⟩
  have legibleOther : splitSample.Legible := ⟨by decide, by decide, by decide⟩
  have apart : Sha256.Apart (Utf8.encode jointSample.signatureText)
      (Utf8.encode splitSample.signatureText) := by
    intro same
    exact absurd same (by decide +kernel)
  obtain ⟨texts, signatures⟩ :=
    (signatureText_eq_iff checked checkedOther).2 legible legibleOther
  exact ⟨checked, checkedOther, legible, legibleOther, apart, texts, signatures apart⟩

-- A line feed in a pattern, a pattern like a heading and an empty exclusion are overlooked.
example :
    (signatureText { thirdLicenses := ["Foo\nBar"] } =
        signatureText { thirdLicenses := ["Foo", "Bar"] }) ∧
      (signatureText { firstOwners := ["X", "3pl:", "Y"], thirdLicenses := ["Z"] } =
        signatureText { firstOwners := ["X"], thirdLicenses := ["Y", "3pl:", "Z"] }) ∧
      (signatureText { exclusions := [""] } = signatureText {}) := by
  decide

end RuleSet

end NoticeScan
