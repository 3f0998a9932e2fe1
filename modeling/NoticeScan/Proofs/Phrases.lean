import NoticeScan.Proofs.Kin
import NoticeScan.Proofs.Widening

/-!
# What phrases describe

The texts that a phrase describes: its words, letter by letter but for case, with runs of blanks,
of decorations and of other words between them.
-/

namespace NoticeScan.Pattern

open NoticeScan.Regex NoticeScan.Text

/-! ## Characters in words and between them -/

/-- The marks that comments are decorated with. -/
def decorations : List Char :=
  ['*', '/', '#', '\u00b7', '\u00a7', '\u00ad', '\u00b6', '\u00a0']

/-- Whether a character is a blank or decorates a comment. -/
def isFiller (c : Char) : Bool :=
  isBlank c || decorations.contains c

/-- The punctuation marks of words. -/
def wordMarks : List Char :=
  ['-', '.', ',']

/-- Whether a character belongs to any word. -/
def isWordy (c : Char) : Bool :=
  isWordPoint c.toNat || wordMarks.contains c

/-- Whether a letter stands for another one when case is ignored: their lower-case forms are equal
or share an upper-case form. -/
def SameLetter (c d : Char) : Prop :=
  lower d.toNat ∈ twins (lower c.toNat)

theorem any_point
    (marks : List Char)
    (c : Char) :
    (marks.map fun mark => Condition.point mark.toNat).any (·.holds c.toNat) =
      marks.contains c := by
  rw [List.any_map, ← List.any_beq]
  refine List.any_congr rfl fun mark => ?_
  exact Bool.eq_iff_iff.mpr (beq_iff_eq.trans (Char.toNat_inj.trans beq_iff_eq.symm))

/-- A class that stands for a category and for some points besides is passed by these. -/
theorem passes_marked
    {members : List Member}
    {kind : Category}
    {front back : List Char}
    (conditions : members.flatMap (Member.conditions flags) =
      (front.map fun mark => .point mark.toNat) ++
        .category kind false false :: back.map fun mark => .point mark.toNat)
    (c : Char) :
    (CharTest.ofMembers flags false members).passes c =
      (kind.holds false c.toNat || (front ++ back).contains c) := by
  have passes : (CharTest.ofMembers flags false members).passes c =
      (front.contains c || (kind.holds false c.toNat || back.contains c)) := by
    rw [CharTest.ofMembers, conditions, CharTest.passes, List.any_append, List.any_cons, any_point,
      any_point, Condition.holds, Bool.bne_false, Bool.bne_false]
  rw [passes, List.contains_append, Bool.or_left_comm]

/-- A character of a class that is written as itself. -/
def plainUnit (c : Char) : List Char × Member :=
  ([c], .point c.toNat)

/-- A character of a class that is written by its code point. -/
def hexUnit (digits : List Char) : List Char × Member :=
  ('\\' :: 'u' :: digits, .point (number 16 digits))

theorem names_plainUnits
    {signs : List Char}
    (plain : signs.all (fun c => c != '\\' && c != ']') = true) :
    ∀ unit ∈ signs.map plainUnit, Names unit.1 unit.2 := by
  refine List.forall_mem_map.mpr fun c member => ?_
  have free := List.all_eq_true.mp plain c member
  simp only [Bool.and_eq_true, bne_iff_ne] at free
  exact names_plain free.1 free.2

theorem names_hexUnits
    {codes : List (List Char)}
    (fine : codes.all (fun digits =>
      digits.length == 4 && digits.all isHex && decide (number 16 digits ≤ 0x10FFFF)) = true) :
    ∀ unit ∈ codes.map hexUnit, Names unit.1 unit.2 := by
  refine List.forall_mem_map.mpr fun digits member => ?_
  have code := List.all_eq_true.mp fine digits member
  simp only [Bool.and_eq_true, beq_iff_eq, decide_eq_true_eq] at code
  exact names_hex code.1.1 code.1.2 code.2

/-- A class of units is read as a character that belongs to a category or is one of some marks. -/
theorem denotesOnce_units
    {units : List (List Char × Member)}
    (kind : Category)
    (front back : List Char)
    {accepts : Char → Bool}
    (named : ∀ unit ∈ units, Names unit.1 unit.2)
    (noRange : ∀ unit ∈ units.tail, unit.1.head? ≠ some '-')
    (positive : (unitText units).head? ≠ some '^')
    (is : Item.ofClass flags false (units.map Prod.snd) =
      .ofMembers flags false (units.map Prod.snd))
    (conditions : (units.map Prod.snd).flatMap (Member.conditions flags) =
      (front.map fun mark => .point mark.toNat) ++
        .category kind false false :: back.map fun mark => .point mark.toNat)
    (same : ∀ c, accepts c = (kind.holds false c.toNat || (front ++ back).contains c)) :
    DenotesOnce flags (anyOf (unitText units)) (letters fun c => accepts c = true) := by
  have nonempty : units ≠ [] := by
    rintro rfl
    have length := congrArg List.length conditions
    simp at length
  have passes : accepts = (CharTest.ofMembers flags false (units.map Prod.snd)).passes :=
    funext fun c => (same c).trans (passes_marked conditions c).symm
  rw [passes]
  exact denotesOnce_class nonempty named noRange positive rfl is

/-- The units of the class of blanks. -/
def blankUnits : List (List Char × Member) :=
  (['\\', 's'], .category .space false) :: ['*', '/', '#'].map plainUnit ++
    ["00b7".toList, "00a7".toList, "00ad".toList, "00b6".toList, "00a0".toList].map hexUnit

theorem names_blankUnits : ∀ unit ∈ blankUnits, Names unit.1 unit.2 :=
  List.forall_mem_append.mpr
    ⟨List.forall_mem_cons.mpr ⟨names_category fun _ => rfl, names_plainUnits (by decide)⟩,
      names_hexUnits (by decide +kernel)⟩

theorem blank_eq : blank = anyOf (unitText blankUnits) := by
  decide +kernel

theorem denotesOnce_blank :
    DenotesOnce flags blank (letters fun c => isFiller c = true) := by
  rw [blank_eq]
  exact denotesOnce_units .space [] decorations names_blankUnits
    (by decide +kernel) (by decide +kernel) (by decide +kernel) (by decide +kernel) fun _ => rfl

/-- The units of the class of characters of any word. -/
def wordUnits : List (List Char × Member) :=
  ['-', '.', ','].map plainUnit ++ [(['\\', 'w'], .category .word false)]

theorem denotesOnce_wordChar :
    DenotesOnce flags wordChar (letters fun c => isWordy c = true) := by
  have named : ∀ unit ∈ wordUnits, Names unit.1 unit.2 :=
    List.forall_mem_append.mpr
      ⟨names_plainUnits (by decide), List.forall_mem_singleton.mpr (names_category fun _ => rfl)⟩
  have text : wordChar = anyOf (unitText wordUnits) := by decide +kernel
  rw [text]
  exact denotesOnce_units .word wordMarks [] named
    (by decide +kernel) (by decide +kernel) (by decide +kernel) (by decide +kernel) fun _ => rfl

theorem denotes_sameLetter
    {c : Char}
    (word : isPlainWord c = true) :
    Denotes flags [c] (letters (SameLetter c)) := by
  have small : c.toNat < 128 := Nat.lt_of_le_of_lt (toNat_of_isPlainWord word).2 (by decide)
  have same : SameLetter c = fun d => (CharTest.ofPoint flags false c.toNat).passes d = true := by
    funext d
    have passes : (CharTest.ofPoint flags false c.toNat).passes d =
        (kin c.toNat).contains d.toNat :=
      Bool.bne_false _
    rw [passes, List.contains_iff_mem, mem_kin_iff small]
    rfl
  rw [same]
  exact denotes_letter word rfl

/-! ## The language of a phrase -/

/-- Runs of characters that are accepted, with bounds on their lengths. -/
def runs (accepts : Char → Bool) (low high : Nat) : Language Char :=
  {text | low ≤ text.length ∧ text.length ≤ high ∧ ∀ c ∈ text, accepts c = true}

theorem counted_letters
    (accepts : Char → Bool)
    (low high : Nat) :
    counted low (some high) (letters fun c => accepts c = true) = runs accepts low high := by
  ext text
  rw [mem_counted_letters]
  simp only [Option.mem_some_iff, forall_eq']
  rfl

/-- Fillers, at least `low` of them. -/
def fillers (limits : Limits) (low : Nat) : Language Char :=
  runs isFiller low limits.spaceLength.toNat

/-- Words with fillers in front of each, at least `low` of them, and fillers behind them. -/
def openWords (limits : Limits) (low : Nat) : Language Char :=
  counted low (some limits.nameRepetition.toNat)
      (fillers limits 1 * runs isWordy 1 limits.nameLength.toNat) *
    fillers limits 0

/-- What may stand at a joint. -/
def Joint.language (limits : Limits) : Joint → Language Char
  | .space => fillers limits 1
  | .optionalSpace => fillers limits 0
  | .words => openWords limits 0
  | .someWords => openWords limits 1

/-- The texts that letters stand for one by one. -/
def spellings (letters : List Char) : Language Char :=
  {text | List.Forall₂ SameLetter letters text}

/-- What a word stands for. -/
def Word.language (word : Word) : Language Char :=
  spellings word.letters

/-- What may stand at an edge. -/
def Edge.language (edge : Edge) : Language Char :=
  if edge.isLoose then ⊤ else 1

/-- What a phrase describes: words with what the joints allow between them, and any text at loose
edges. -/
def Phrase.language (limits : Limits) (phrase : Phrase) : Language Char :=
  phrase.front.language *
      (phrase.first.language *
        (phrase.rest.map fun (joint, word) => joint.language limits * word.language).prod) *
    phrase.back.language

/-- Limits that can be written as bounds of a repeat, and leave room for something. -/
structure Limits.Sound (limits : Limits) : Prop where
  spaceLength : 1 ≤ limits.spaceLength ∧ limits.spaceLength < endless
  nameLength : 1 ≤ limits.nameLength ∧ limits.nameLength < endless
  nameRepetition : 1 ≤ limits.nameRepetition ∧ limits.nameRepetition < endless

/-! ## What the pieces of a widened phrase mean -/

/-- A repeat with a limit as its upper bound. -/
theorem denotes_times
    {piece : Expr}
    {language : Language Char}
    (denotes : DenotesOnce flags piece language)
    {low : Nat}
    {limit : Int}
    (room : low ≤ 1)
    (fits : 1 ≤ limit ∧ limit < endless) :
    Denotes flags (times piece low limit) (counted low (some limit.toNat) language) := by
  obtain ⟨high, rfl⟩ : ∃ high : Nat, limit = high := ⟨limit.toNat, by omega⟩
  exact denotes.times rfl (by omega) (by omega)

section Pieces

variable {limits : Limits} {low : Nat}

theorem denotes_space
    (sound : limits.Sound)
    (room : low ≤ 1) :
    Denotes flags (space low limits) (fillers limits low) := by
  have denotes := denotes_times denotesOnce_blank room sound.spaceLength
  rw [counted_letters] at denotes
  exact denotes

theorem denotes_wildcard
    (sound : limits.Sound)
    (room : low ≤ 1) :
    Denotes flags (wildcard low limits) (openWords limits low) := by
  have word : Denotes flags (times wordChar 1 limits.nameLength) _ :=
    denotes_times denotesOnce_wordChar (Nat.le_refl 1) sound.nameLength
  rw [counted_letters] at word
  have spaced : Denotes flags (space 1 limits ++ times wordChar 1 limits.nameLength) _ :=
    (denotes_space sound (Nat.le_refl 1)).append word (settled_cons (by decide) _)
  exact (denotes_times spaced.group room sound.nameRepetition).append
    (denotes_space sound (Nat.zero_le 1)) (settled_cons (by decide) _)

theorem Joint.denotes_gap
    (sound : limits.Sound)
    (joint : Joint) :
    Denotes flags (joint.gap limits) (joint.language limits) := by
  cases joint with
  | space => exact denotes_space sound (Nat.le_refl 1)
  | optionalSpace => exact denotes_space sound (Nat.zero_le 1)
  | words => exact denotes_wildcard sound (Nat.zero_le 1)
  | someWords => exact denotes_wildcard sound (Nat.le_refl 1)

theorem Joint.settled_gap (joint : Joint) :
    Settled (joint.gap limits) := by
  cases joint with
  | space => exact settled_cons (by decide) _
  | optionalSpace => exact settled_cons (by decide) _
  | words => exact settled_cons (by decide) _
  | someWords => exact settled_cons (by decide) _

theorem settled_letters
    {letters : List Char}
    (plain : ∀ c ∈ letters, isPlainWord c = true) :
    Settled letters := by
  cases letters with
  | nil => exact settled_nil
  | cons c rest =>
      have word := plain c List.mem_cons_self
      exact settled_cons
        ⟨ne_of_isPlainWord word rfl, ne_of_isPlainWord word rfl, ne_of_isPlainWord word rfl⟩ rest

theorem spellings_nil : spellings [] = 1 := by
  ext text
  rw [Language.mem_one]
  exact List.forall₂_nil_left_iff

theorem spellings_cons
    (c : Char)
    (rest : List Char) :
    spellings (c :: rest) = letters (SameLetter c) * spellings rest := by
  ext text
  rw [Language.mem_mul]
  constructor
  · intro spelled
    obtain ⟨d, more, same, others, rfl⟩ := List.forall₂_cons_left_iff.mp spelled
    exact ⟨[d], ⟨d, same, rfl⟩, more, others, rfl⟩
  · rintro ⟨_, ⟨d, same, rfl⟩, more, others, rfl⟩
    exact .cons same others

theorem denotes_letters
    {text : List Char}
    (plain : ∀ c ∈ text, isPlainWord c = true) :
    Denotes flags text (spellings text) := by
  induction text with
  | nil =>
      rw [spellings_nil]
      exact denotes_nil
  | cons c rest inductionHypothesis =>
      obtain ⟨here, later⟩ := List.forall_mem_cons.mp plain
      rw [spellings_cons]
      exact (denotes_sameLetter here).append (inductionHypothesis later) (settled_letters later)

theorem Word.denotes (word : Word) :
    Denotes flags word.letters word.language :=
  denotes_letters word.plain

theorem Edge.settled_expr (edge : Edge) :
    Settled edge.expr := by
  cases edge with
  | firm => exact settled_nil
  | star => exact settled_cons (by decide) _
  | plus => exact settled_cons (by decide) _

theorem Edge.denotes_expr (edge : Edge) :
    Denotes flags edge.expr edge.language := by
  have anything : Denotes flags (group ['.', '*']) ⊤ :=
    (denotes_anything rfl rfl rfl).group.denotes
  cases edge with
  | firm => exact denotes_nil
  | star => exact anything
  | plus => exact anything

end Pieces

/-! ## Phrases describe their language -/

/-- A pattern without problems whose whole form can be read. -/
theorem compile_of_findings
    {limits : Limits}
    (pattern : String)
    {regex : Regex}
    (fine : findings pattern.toList = [])
    (read : Regex.compile flags (wholeExpr pattern.toList (widen limits pattern.toList)) =
      .ok regex) :
    ∃ made, compile limits pattern = .ok made ∧ made.regex = regex := by
  unfold compile
  simp only [fine, read]
  exact ⟨_, rfl, rfl⟩

namespace Phrase

variable {limits : Limits}

theorem settled_tail (rest : List (Joint × Word)) :
    Settled (tail (Joint.gap limits) rest) := by
  induction rest with
  | nil => exact settled_nil
  | cons pair others inductionHypothesis =>
      exact (pair.1.settled_gap.append (settled_letters pair.2.plain)).append inductionHypothesis

theorem denotes_tail
    (sound : limits.Sound)
    (rest : List (Joint × Word)) :
    Denotes flags (tail (Joint.gap limits) rest)
      (rest.map fun (joint, word) => joint.language limits * word.language).prod := by
  induction rest with
  | nil => exact denotes_nil
  | cons pair others inductionHypothesis =>
      have here : Denotes flags (pair.1.gap limits ++ pair.2.letters)
          (pair.1.language limits * pair.2.language) :=
        (pair.1.denotes_gap sound).append pair.2.denotes (settled_letters pair.2.plain)
      rw [List.map_cons, List.prod_cons]
      exact here.append inductionHypothesis (settled_tail others)

theorem denotes_whole
    (phrase : Phrase)
    (sound : limits.Sound) :
    Denotes flags (phrase.front.expr ++ group (phrase.inner (Joint.gap limits)) ++ phrase.back.expr)
      (phrase.language limits) := by
  have inner : Denotes flags (phrase.inner (Joint.gap limits)) _ :=
    phrase.first.denotes.append (denotes_tail sound phrase.rest) (settled_tail phrase.rest)
  exact (phrase.front.denotes_expr.append inner.group.denotes (settled_cons (by decide) _)).append
    phrase.back.denotes_expr phrase.back.settled_expr

/-- A phrase is compiled, and what comes of it describes the language of the phrase. -/
theorem compile_describes
    (phrase : Phrase)
    (sound : limits.Sound) :
    ∃ made, compile limits (String.ofList phrase.text) = .ok made ∧
      ∀ text, made.describes text = true ↔ text.toList ∈ phrase.language limits := by
  obtain ⟨regex, compiled, matched⟩ := (phrase.denotes_whole sound).compile
  rw [← phrase.widen_text limits, ← phrase.wholeExpr_text] at compiled
  obtain ⟨made, done, same⟩ := compile_of_findings (String.ofList phrase.text)
    (by rw [String.toList_ofList, phrase.findings_text]) (by rw [String.toList_ofList, compiled])
  refine ⟨made, done, fun text => ?_⟩
  rw [← matched text, ← same]
  rfl

/-- A phrase of two words, with anything in front and some words between. -/
def licenceSample : Phrase where
  front := .star
  first := ⟨"Licence".toList, by decide, List.all_eq_true.mp (by decide)⟩
  rest := [(.someWords, ⟨"MIT".toList, by decide, List.all_eq_true.mp (by decide)⟩)]
  back := .firm

theorem compile_describes_licenceSample :
    Limits.Sound {} ∧ licenceSample.text = ".*Licence .+ MIT".toList ∧
      ∃ made, compile {} (String.ofList licenceSample.text) = .ok made ∧
        ∀ text, made.describes text = true ↔ text.toList ∈ licenceSample.language {} := by
  have sound : Limits.Sound {} := ⟨by decide, by decide, by decide⟩
  exact ⟨sound, by decide, compile_describes licenceSample sound⟩

end Phrase

end NoticeScan.Pattern
