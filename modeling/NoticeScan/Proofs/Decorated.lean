import NoticeScan.Proofs.Demands
import NoticeScan.Proofs.Encoded
import NoticeScan.Proofs.Phrases

/-!
# Decorated texts

The text of a licence as it stands in a comment: its words, in letters of either case, with line
breaks, blanks and decorations between them. Made normal, it is the words with single spaces
between them. It is described by the phrase that the words make up, and no shorter front of it is.
-/

namespace NoticeScan

open NoticeScan.Regex NoticeScan.Text NoticeScan.Pattern NoticeScan.Scan

/-! ## Words and gaps -/

/-- A word as it is shown, letter by letter but for case. -/
structure ShownWord where
  word : Word
  letters : List Char
  same : List.Forall₂ (fun c d => Scanner.smallLetter c = Scanner.smallLetter d)
    word.letters letters

/-- What stands between two words that are shown: blanks and decorations, no more of them than a
pattern allows for by default. -/
structure Gap where
  fillers : List Char
  nonempty : fillers ≠ []
  short : (fillers.length : Int) ≤ ({} : Limits).spaceLength
  filling : ∀ c ∈ fillers, isFiller c = true

/-- A single space. -/
def Gap.space : Gap where
  fillers := [' ']
  nonempty := List.cons_ne_nil _ _
  short := by decide
  filling := List.forall_mem_singleton.mpr (by decide)

/-- Words that are shown with gaps between them. -/
structure Decorated where
  first : ShownWord
  rest : List (Gap × ShownWord)

namespace Decorated

/-- The text in which the words are shown. -/
def text (shown : Decorated) : List Char :=
  shown.first.letters ++ shown.rest.flatMap fun (gap, word) => gap.fillers ++ word.letters

/-- The words as they are shown, with single spaces between them. -/
def joined (shown : Decorated) : List Char :=
  shown.first.letters ++ shown.rest.flatMap fun (_, word) => ' ' :: word.letters

/-- The words as they are known, as a pattern. -/
def phrase (shown : Decorated) : Phrase where
  front := .firm
  first := shown.first.word
  rest := shown.rest.map fun (_, word) => (.space, word.word)
  back := .firm

/-- The same words with single spaces between them. -/
def plain (shown : Decorated) : Decorated where
  first := shown.first
  rest := shown.rest.map fun (_, word) => (.space, word)

theorem text_plain (shown : Decorated) :
    shown.plain.text = shown.joined := by
  rw [text, plain, joined, List.flatMap_map]
  rfl

theorem phrase_plain (shown : Decorated) :
    shown.plain.phrase = shown.phrase := by
  rw [phrase, plain, phrase, List.map_map]
  rfl

end Decorated

/-! ## Letters -/

/-- What holds of every code point of one byte holds of a small character. -/
theorem of_small
    {p : Char → Prop}
    (all : ∀ n < 128, p (Char.ofNat n))
    {c : Char}
    (small : c.toNat < 128) :
    p c :=
  Char.ofNat_toNat c ▸ all c.toNat small

theorem lt_of_isPlainWord
    {c : Char}
    (word : isPlainWord c = true) :
    c.toNat < 128 :=
  Nat.lt_of_le_of_lt (toNat_of_isPlainWord word).2 (by decide)

theorem toNat_smallLetter
    {c : Char}
    (small : c.toNat < 128) :
    (Scanner.smallLetter c).toNat = lower c.toNat :=
  of_small (p := fun c => (Scanner.smallLetter c).toNat = lower c.toNat) (by decide +kernel) small

theorem lt_of_smallLetter
    {c d : Char}
    (same : Scanner.smallLetter c = Scanner.smallLetter d)
    (small : c.toNat < 128) :
    d.toNat < 128 := by
  have lowered : ∀ n < 128, lower n < 128 := by decide
  by_contra far
  have kept : Scanner.smallLetter d = d := by
    have beyond : (decide ('A' ≤ d) && decide (d ≤ 'Z')) = false := by
      have value : 'Z'.val.toNat = 90 ∧ d.val.toNat = d.toNat := ⟨rfl, rfl⟩
      simp only [Bool.and_eq_false_iff, decide_eq_false_iff_not, Char.le_def,
        UInt32.le_iff_toNat_le]
      omega
    rw [Scanner.smallLetter, beyond, if_neg Bool.false_ne_true]
  have value := toNat_smallLetter small
  rw [same, kept] at value
  exact far (value ▸ lowered _ small)

theorem sameLetter_of_smallLetter
    {c d : Char}
    (word : isPlainWord c = true)
    (same : Scanner.smallLetter c = Scanner.smallLetter d) :
    SameLetter c d ∧ isPlainWord d = true := by
  have small := lt_of_isPlainWord word
  have smallToo := lt_of_smallLetter same small
  have kept {c : Char} (small : c.toNat < 128) :
      isPlainWord (Scanner.smallLetter c) = isPlainWord c :=
    of_small (p := fun c => isPlainWord (Scanner.smallLetter c) = isPlainWord c)
      (by decide +kernel) small
  constructor
  · rw [SameLetter, ← toNat_smallLetter small, ← toNat_smallLetter smallToo, same]
    exact mem_twins _
  · rw [← kept smallToo, ← same, kept small, word]

theorem isFiller_of_sameLetter
    {c d : Char}
    (word : isPlainWord c = true)
    (same : SameLetter c d) :
    isFiller d = false := by
  have small := lt_of_isPlainWord word
  have all : ∀ n < 128, isPlainWord (Char.ofNat n) = true →
      ∀ x ∈ kin n, isFiller (Char.ofNat x) = false := by
    decide +kernel
  have kin := all c.toNat small (by rwa [Char.ofNat_toNat]) d.toNat ((mem_kin_iff small).mpr same)
  rwa [Char.ofNat_toNat] at kin

theorem isFiller_of_isPlainWord
    {c : Char}
    (word : isPlainWord c = true) :
    isFiller c = false :=
  isFiller_of_sameLetter word (mem_twins _)

namespace ShownWord

theorem spelled (shown : ShownWord) :
    List.Forall₂ SameLetter shown.word.letters shown.letters ∧
      ∀ c ∈ shown.letters, isPlainWord c = true := by
  have same := shown.same
  have plain := shown.word.plain
  generalize shown.word.letters = known at same plain
  generalize shown.letters = letters at same
  induction same with
  | nil => exact ⟨.nil, fun _ none => absurd none List.not_mem_nil⟩
  | cons first _ inductionHypothesis =>
      obtain ⟨here, later⟩ := List.forall_mem_cons.mp plain
      obtain ⟨sameFirst, plainFirst⟩ := sameLetter_of_smallLetter here first
      obtain ⟨sameRest, plainRest⟩ := inductionHypothesis later
      exact ⟨.cons sameFirst sameRest, List.forall_mem_cons.mpr ⟨plainFirst, plainRest⟩⟩

theorem mem_language (shown : ShownWord) :
    shown.letters ∈ shown.word.language :=
  shown.spelled.1

theorem plain (shown : ShownWord) :
    ∀ c ∈ shown.letters, isPlainWord c = true :=
  shown.spelled.2

theorem exists_cons (shown : ShownWord) :
    ∃ c rest, shown.letters = c :: rest ∧ isPlainWord c = true := by
  obtain ⟨d, more, spelled, -⟩ := shown.word.exists_cons
  have same := shown.same
  rw [spelled] at same
  obtain ⟨c, rest, -, -, listed⟩ := List.forall₂_cons_left_iff.mp same
  exact ⟨c, rest, listed, shown.plain c (listed ▸ List.mem_cons_self)⟩

end ShownWord

namespace Decorated

variable {shown : Decorated}

/-- What holds of words and of fillers holds of all characters of the text. -/
theorem forall_mem_text
    {p : Char → Prop}
    (ofWord : ∀ c, isPlainWord c = true → p c)
    (ofFiller : ∀ c, isFiller c = true → p c)
    (shown : Decorated) :
    ∀ c ∈ shown.text, p c := by
  intro c member
  rcases List.mem_append.mp member with first | rest
  · exact ofWord c (shown.first.plain c first)
  · obtain ⟨⟨gap, word⟩, -, inside⟩ := List.mem_flatMap.mp rest
    rcases List.mem_append.mp inside with inGap | inWord
    · exact ofFiller c (gap.filling c inGap)
    · exact ofWord c (word.plain c inWord)

theorem ne_of_mem_text
    {sign : Char}
    (noWord : isPlainWord sign = false)
    (noFiller : isFiller sign = false) :
    ∀ c ∈ shown.text, c ≠ sign := by
  apply forall_mem_text
  · rintro c word rfl
    rw [word] at noWord
    cases noWord
  · rintro c filler rfl
    rw [filler] at noFiller
    cases noFiller

theorem text_ne_nil (shown : Decorated) :
    shown.text ≠ [] := by
  obtain ⟨c, rest, listed, -⟩ := shown.first.exists_cons
  rw [text, listed]
  exact List.cons_ne_nil _ _

theorem quoteless_text (shown : Decorated) :
    Reader.Quoteless shown.text := by
  intro c member
  have noAmpersand : c ≠ '&' := ne_of_mem_text (by decide) (by decide) c member
  have noBracket : c ≠ '<' := ne_of_mem_text (by decide) (by decide) c member
  rw [Reader.opensQuote, beq_false_of_ne noAmpersand, beq_false_of_ne noBracket]
  rfl

/-! ## What describes a decorated text -/

/-- The words behind the first one, each with fillers in front of it. -/
def spaced (words : List Word) : Language Char :=
  (words.map fun word => fillers {} 1 * word.language).prod

theorem language_phrase (shown : Decorated) :
    shown.phrase.language {} =
      shown.first.word.language * spaced (shown.rest.map fun (_, word) => word.word) := by
  have firm : Edge.language .firm = 1 := rfl
  rw [Phrase.language, phrase, firm, one_mul, mul_one, spaced, List.map_map, List.map_map]
  rfl

theorem mem_fillers (gap : Gap) :
    gap.fillers ∈ fillers {} 1 := by
  refine ⟨List.length_pos_iff.mpr gap.nonempty, ?_, gap.filling⟩
  have short := gap.short
  omega

/-- The phrase of the words describes the text. -/
theorem text_mem_language (shown : Decorated) :
    shown.text ∈ shown.phrase.language {} := by
  have ofRest : ∀ rest : List (Gap × ShownWord),
      (rest.flatMap fun (gap, word) => gap.fillers ++ word.letters) ∈
        spaced (rest.map fun (_, word) => word.word) := by
    intro rest
    induction rest with
    | nil => exact (Language.mem_one _).mpr rfl
    | cons pair others inductionHypothesis =>
        obtain ⟨gap, word⟩ := pair
        have here : gap.fillers ++ word.letters ∈ fillers {} 1 * word.word.language :=
          Language.append_mem_mul (mem_fillers gap) word.mem_language
        exact Language.append_mem_mul here inductionHypothesis
  rw [language_phrase]
  exact Language.append_mem_mul shown.first.mem_language (ofRest shown.rest)

theorem joined_mem_language (shown : Decorated) :
    shown.joined ∈ shown.phrase.language {} := by
  rw [← shown.text_plain, ← shown.phrase_plain]
  exact shown.plain.text_mem_language

/-- Where a run of accepted characters ends is told by the character behind it. -/
theorem runs_unique
    {accepts : Char → Bool}
    {front other back more : List Char}
    {c d : Char}
    (inFront : ∀ a ∈ front, accepts a = true)
    (inOther : ∀ a ∈ other, accepts a = true)
    (stops : accepts c = false)
    (stopsToo : accepts d = false)
    (same : front ++ c :: back = other ++ d :: more) :
    front = other ∧ c :: back = d :: more := by
  have taken := congrArg (List.takeWhile accepts) same
  rw [List.takeWhile_append_of_pos inFront, List.takeWhile_append_of_pos inOther,
    List.takeWhile_cons_of_neg (by simp [stops]), List.takeWhile_cons_of_neg (by simp [stopsToo]),
    List.append_nil, List.append_nil] at taken
  rw [taken] at same
  exact ⟨taken, List.append_cancel_left same⟩

theorem exists_of_mem_language
    {word : Word}
    {letters : List Char}
    (spelled : letters ∈ word.language) :
    letters.length = word.letters.length ∧
      ∃ c rest, letters = c :: rest ∧ isFiller c = false := by
  refine ⟨(List.Forall₂.length_eq spelled).symm, ?_⟩
  obtain ⟨d, more, known, plain⟩ := word.exists_cons
  have same : List.Forall₂ SameLetter (d :: more) letters := known ▸ spelled
  obtain ⟨c, rest, first, -, listed⟩ := List.forall₂_cons_left_iff.mp same
  exact ⟨c, rest, listed, isFiller_of_sameLetter plain first⟩

/-- A word that is followed by the same word is that word. -/
theorem word_unique
    {word : Word}
    {front other back more : List Char}
    (one : front ∈ word.language)
    (another : other ∈ word.language)
    (same : front ++ back = other ++ more) :
    front = other ∧ back = more :=
  List.append_inj same
    ((exists_of_mem_language one).1.trans (exists_of_mem_language another).1.symm)

/-- Of two texts with the same words, none goes on with the other one. -/
theorem spaced_unique
    {words : List Word}
    {front whole more : List Char}
    (one : front ∈ spaced words)
    (another : whole ∈ spaced words)
    (same : front ++ more = whole) :
    front = whole := by
  induction words generalizing front whole with
  | nil => exact ((Language.mem_one _).mp one).trans ((Language.mem_one _).mp another).symm
  | cons word others inductionHypothesis =>
      rw [spaced, List.map_cons, List.prod_cons] at one another
      obtain ⟨_, ⟨gap, fill, letters, spelled, rfl⟩, rest, inRest, rfl⟩ := one
      obtain ⟨_, ⟨gapToo, fillToo, lettersToo, spelledToo, rfl⟩, restToo, inRestToo, rfl⟩ := another
      obtain ⟨-, c, tail, listed, stops⟩ := exists_of_mem_language spelled
      obtain ⟨-, d, tailToo, listedToo, stopsToo⟩ := exists_of_mem_language spelledToo
      have split : gap ++ c :: (tail ++ (rest ++ more)) =
          gapToo ++ d :: (tailToo ++ restToo) := by
        rw [listed, listedToo] at same
        simpa using same
      obtain ⟨sameGap, behind⟩ := runs_unique fill.2.2 fillToo.2.2 stops stopsToo split
      have words : letters ++ (rest ++ more) = lettersToo ++ restToo := by
        rw [listed, listedToo]
        exact behind
      obtain ⟨sameWord, sameRest⟩ := word_unique spelled spelledToo words
      rw [sameGap, sameWord, inductionHypothesis inRest inRestToo sameRest]

/-- The phrase describes no shorter front of the text. -/
theorem front_eq_text
    (shown : Decorated)
    {front : List Char}
    (described : front ∈ shown.phrase.language {})
    (starts : front <+: shown.text) :
    front = shown.text := by
  obtain ⟨more, same⟩ := starts
  have whole := shown.text_mem_language
  rw [language_phrase] at described whole
  obtain ⟨letters, spelled, rest, inRest, rfl⟩ := described
  obtain ⟨lettersToo, spelledToo, restToo, inRestToo, is⟩ := whole
  dsimp only at same is ⊢
  rw [← is, List.append_assoc] at same
  obtain ⟨sameWord, sameRest⟩ := word_unique spelled spelledToo same
  rw [← is, sameWord, spaced_unique inRest inRestToo sameRest]

theorem nil_notMem_language (shown : Decorated) :
    [] ∉ shown.phrase.language {} := by
  intro described
  exact shown.text_ne_nil (shown.front_eq_text described List.nil_prefix).symm

/-! ## What a decorated text is made -/

theorem isDecoration_eq (c : Char) :
    isDecoration c = isFiller c := by
  have split : isFiller c = (isDecoration c || c == '\u00a0') := by
    simp only [isFiller, isDecoration, decorations, List.contains_cons, List.contains_nil,
      Bool.or_assoc, Bool.or_false]
  have listed : isDecoration '\u00a0' = true := rfl
  rw [split]
  by_cases same : c = '\u00a0'
  · rw [same, listed, Bool.true_or]
  · rw [beq_false_of_ne same, Bool.or_false]

theorem collapseFrom_word
    (word : ShownWord)
    (inRun : Bool)
    (rest : List Char) :
    collapseFrom inRun (word.letters ++ rest) = word.letters ++ collapseFrom false rest := by
  have solid : ∀ c ∈ word.letters, isDecoration c = false := fun c member =>
    (isDecoration_eq c).trans (isFiller_of_isPlainWord (word.plain c member))
  obtain ⟨c, more, listed, -⟩ := word.exists_cons
  rw [listed] at solid ⊢
  clear listed
  induction more generalizing c inRun with
  | nil =>
      rw [List.singleton_append, collapseFrom, solid c List.mem_cons_self,
        if_neg Bool.false_ne_true]
      rfl
  | cons d others inductionHypothesis =>
      rw [List.cons_append, collapseFrom, solid c List.mem_cons_self, if_neg Bool.false_ne_true,
        inductionHypothesis false d fun e member => solid e (List.mem_cons_of_mem c member)]
      rfl

theorem collapseFrom_fillers
    {fillers : List Char}
    (filling : ∀ c ∈ fillers, isFiller c = true)
    (rest : List Char) :
    collapseFrom true (fillers ++ rest) = collapseFrom true rest := by
  induction fillers with
  | nil => rfl
  | cons c more inductionHypothesis =>
      obtain ⟨here, later⟩ := List.forall_mem_cons.mp filling
      rw [List.cons_append, collapseFrom, isDecoration_eq, here, if_pos rfl, if_pos rfl,
        inductionHypothesis later]

theorem collapseFrom_gap
    (gap : Gap)
    (rest : List Char) :
    collapseFrom false (gap.fillers ++ rest) = ' ' :: collapseFrom true rest := by
  obtain ⟨c, more, listed⟩ := List.exists_cons_of_ne_nil gap.nonempty
  obtain ⟨here, later⟩ := List.forall_mem_cons.mp (listed ▸ gap.filling)
  rw [listed, List.cons_append, collapseFrom, isDecoration_eq, here, if_pos rfl,
    if_neg Bool.false_ne_true, collapseFrom_fillers later]

/-- Every gap is made a space. -/
theorem collapse_text (shown : Decorated) :
    collapse shown.text = shown.joined := by
  have ofRest : ∀ rest : List (Gap × ShownWord),
      collapseFrom false (rest.flatMap fun (gap, word) => gap.fillers ++ word.letters) =
        rest.flatMap fun (_, word) => ' ' :: word.letters := by
    intro rest
    induction rest with
    | nil => rfl
    | cons pair others inductionHypothesis =>
        obtain ⟨gap, word⟩ := pair
        rw [List.flatMap_cons, List.flatMap_cons, List.append_assoc, collapseFrom_gap,
          collapseFrom_word, inductionHypothesis]
        rfl
  rw [collapse, text, collapseFrom_word, ofRest]
  rfl

/-- The tests for a colon and for a dot. -/
def testsMark : CharTest → Bool
  | .listed false points => points.all fun x => x == ':'.toNat || x == '.'.toNat
  | _ => false

/-- No address stands in a decorated text, since it has neither a colon nor a dot. -/
theorem findAll_address (shown : Decorated) :
    address.findAll shown.text.toArray = [] := by
  have demands : address.node.demands testsMark = true := by decide +kernel
  have bare : address.node.bare = true := by decide +kernel
  apply findAll_of_demands bare demands
  intro c member test tests
  have noColon : c ≠ ':' := ne_of_mem_text (by decide) (by decide) c member
  have noDot : c ≠ '.' := ne_of_mem_text (by decide) (by decide) c member
  cases test with
  | listed negated points =>
      cases negated with
      | true => cases tests
      | false =>
          have absent : points.contains c.toNat = false := by
            rw [← Bool.not_eq_true, List.contains_iff_mem]
            intro inside
            rcases Bool.or_eq_true_iff.mp (List.all_eq_true.mp tests _ inside) with colon | dot
            · exact noColon (Char.toNat_inj.mp (eq_of_beq colon))
            · exact noDot (Char.toNat_inj.mp (eq_of_beq dot))
          rw [CharTest.passes, absent]
          rfl
  | any => cases tests
  | notNewline => cases tests
  | fulfils negated conditions => cases tests

/-- The words of a decorated text stand at both of its ends. -/
theorem exists_joined_ends (shown : Decorated) :
    (∃ c rest, shown.joined = c :: rest ∧ isBlank c = false) ∧
      ∃ front c, shown.joined = front ++ [c] ∧ isBlank c = false := by
  have ofWord : ∀ word : ShownWord, ∃ front c,
      word.letters = front ++ [c] ∧ isBlank c = false := by
    intro word
    obtain none | ⟨front, c, listed⟩ := List.eq_nil_or_concat' word.letters
    · obtain ⟨c, rest, listed, -⟩ := word.exists_cons
      rw [none] at listed
      cases listed
    · exact ⟨front, c, listed, isBlank_of_isPlainWord (word.plain c (by simp [listed]))⟩
  constructor
  · obtain ⟨c, rest, listed, plain⟩ := shown.first.exists_cons
    exact ⟨c, _, by rw [joined, listed]; rfl, isBlank_of_isPlainWord plain⟩
  · obtain none | ⟨before, ⟨gap, word⟩, listed⟩ := List.eq_nil_or_concat' shown.rest
    · obtain ⟨front, c, spelled, noBlank⟩ := ofWord shown.first
      exact ⟨front, c, by rw [joined, none, spelled]; simp, noBlank⟩
    · obtain ⟨front, c, spelled, noBlank⟩ := ofWord word
      refine ⟨shown.first.letters ++
        ((before.flatMap fun (_, word) => ' ' :: word.letters) ++ ' ' :: front), c, ?_, noBlank⟩
      rw [joined, listed]
      simp [spelled]

theorem trim_joined (shown : Decorated) :
    trim shown.joined = shown.joined := by
  obtain ⟨⟨c, rest, starts, noBlank⟩, front, d, ends, noBlankToo⟩ := shown.exists_joined_ends
  have kept : shown.joined.dropWhile isBlank = shown.joined := by
    rw [starts, List.dropWhile_cons_of_neg (by simp [noBlank])]
  have keptToo : shown.joined.reverse.dropWhile isBlank = shown.joined.reverse := by
    rw [ends, List.reverse_concat, List.dropWhile_cons_of_neg (by simp [noBlankToo])]
  rw [trim, trimOf, kept, keptToo, List.reverse_reverse]

/-- A decorated text is made normal: its words with single spaces between them. -/
theorem normalText_text (shown : Decorated) :
    normalText shown.text = shown.joined := by
  have all : slice shown.text.toArray 0 shown.text.toArray.size = shown.text := by
    rw [slice, Array.extract_size]
  rw [normalText, findAll_address, collapseBetween, all, collapse_text, trim_joined]

end Decorated

end NoticeScan
