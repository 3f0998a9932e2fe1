import Mathlib
import NoticeScan.Reader.Markup
import NoticeScan.Reader.Substitution

/-!
# Replacing quotes piece by piece

`Rewrites` says what a text becomes when every spelling of a quotation mark in it is replaced,
from left to right. The replacement of a whole text does that, and so does the replacement in
pieces: what is held back between two pieces is the longest end of the text so far that starts a
spelling, and no spelling reaches from what has been handed out into it. All of this rests on one
property of the four spellings: each of them opens with a sign that none has further inside.
-/

namespace NoticeScan.Reader

open NoticeScan.Text

/-- What a text becomes when every spelling of a quotation mark is replaced by the mark. -/
inductive Rewrites : List Char → List Char → Prop
  | nil : Rewrites [] []
  | quote {spelling rest out : List Char} :
      spelling ∈ markupQuotes →
      Rewrites rest out → Rewrites (spelling ++ rest) ('"' :: out)
  | keep {c : Char} {rest out : List Char} :
      (∀ spelling ∈ markupQuotes, ¬ spelling <+: c :: rest) →
      Rewrites rest out → Rewrites (c :: rest) (c :: out)

/-! ## The spellings -/

/-- The signs that a spelling opens with. -/
def opensQuote (c : Char) : Bool :=
  c == '&' || c == '<'

theorem markupQuotes_eq :
    markupQuotes =
      [ ['&', 'q', 'u', 'o', 't', ';'], ['&', '#', '3', '4', ';'], ['<', 'v', 'a', 'r', '>'],
        ['<', '/', 'v', 'a', 'r', '>'] ] := by
  decide

theorem spelling_shape :
    ∀ spelling ∈ markupQuotes,
      ∃ c rest, spelling = c :: rest ∧ opensQuote c ∧ ∀ d ∈ rest, opensQuote d = false := by
  intro spelling member
  simp only [markupQuotes_eq, List.mem_cons, List.not_mem_nil, or_false] at member
  rcases member with rfl | rfl | rfl | rfl
  all_goals exact ⟨_, _, rfl, by decide, by simp [opensQuote]⟩

theorem spelling_ne_nil
    {spelling : List Char}
    (member : spelling ∈ markupQuotes) :
    spelling ≠ [] := by
  obtain ⟨c, rest, rfl, -⟩ := spelling_shape spelling member
  exact List.cons_ne_nil c rest

theorem spelling_prefix_free :
    ∀ spelling ∈ markupQuotes, ∀ other ∈ markupQuotes,
      spelling <+: other → spelling = other := by
  decide

theorem spelling_length :
    ∀ spelling ∈ markupQuotes, spelling.length ≤ holdLimit + 1 := by
  decide

/-- No stand-in for a stray byte occurs in a spelling. -/
theorem substitute_notMem
    (b : UInt8)
    {spelling : List Char}
    (member : spelling ∈ markupQuotes) :
    substitute b ∉ spelling := by
  have letters : ∀ other ∈ markupQuotes, ∀ c ∈ other, c.toNat < 0x80 ∧ c ∉ [' ', '*', '?'] := by
    simp [markupQuotes_eq]
  intro inSpelling
  obtain ⟨ascii, plain⟩ := letters spelling member _ inSpelling
  have bound := b.toNat_lt
  unfold substitute at ascii plain
  simp only at ascii plain
  split_ifs at ascii plain with high blank star trademark copyright registered umlaut
  · have toNat : (Char.ofNat b.toNat).toNat = b.toNat := by
      rw [Char.ofNat, dif_pos (Or.inl (by omega))]
      rfl
    omega
  all_goals revert ascii plain; decide

theorem startsWith_iff
    (spelling : List Char) (glyphs : List Glyph) :
    startsWith spelling glyphs = true ↔ spelling.map .char <+: glyphs := by
  induction spelling generalizing glyphs with
  | nil =>
      simp [startsWith]
  | cons c rest inductionHypothesis =>
      cases glyphs with
      | nil =>
          simp [startsWith]
      | cons glyph more =>
          cases glyph with
          | char d =>
              simp [startsWith, inductionHypothesis, List.cons_prefix_cons]
          | stray b =>
              simp [startsWith, List.cons_prefix_cons]

/-- Spellings are seen alike before and after stray bytes are substituted. -/
theorem prefix_map_shown_iff
    {spelling : List Char}
    (member : spelling ∈ markupQuotes)
    (glyphs : List Glyph) :
    spelling <+: glyphs.map shown ↔ spelling.map .char <+: glyphs := by
  have noSubstitute : ∀ b, substitute b ∉ spelling := fun b => substitute_notMem b member
  clear member
  induction spelling generalizing glyphs with
  | nil =>
      simp
  | cons c rest inductionHypothesis =>
      have inRest : ∀ b, substitute b ∉ rest := fun b inside =>
        noSubstitute b (List.mem_cons_of_mem c inside)
      cases glyphs with
      | nil =>
          simp
      | cons glyph more =>
          rw [List.map_cons, List.map_cons, List.cons_prefix_cons, List.cons_prefix_cons]
          have step : rest <+: more.map shown ↔ rest.map .char <+: more :=
            inductionHypothesis more inRest
          rw [step]
          cases glyph with
          | char d =>
              simp [shown]
          | stray b =>
              have differs : c ≠ substitute b := by
                rintro rfl
                exact noSubstitute b List.mem_cons_self
              simp [shown, differs]

theorem map_char_prefix_iff
    {first second : List Char} :
    first.map Glyph.char <+: second.map Glyph.char ↔ first <+: second :=
  List.prefix_map_iff_of_injective fun _ _ => Glyph.char.inj

/-- At most one spelling opens a text. -/
theorem spelling_unique
    {glyphs : List Glyph} {spelling other : List Char}
    (member : spelling ∈ markupQuotes)
    (otherMember : other ∈ markupQuotes)
    (isPrefix : spelling.map .char <+: glyphs)
    (otherPrefix : other.map .char <+: glyphs) :
    spelling = other := by
  rcases List.prefix_or_prefix_of_prefix isPrefix otherPrefix with shorter | longer
  · exact spelling_prefix_free _ member _ otherMember (map_char_prefix_iff.1 shorter)
  · exact (spelling_prefix_free _ otherMember _ member (map_char_prefix_iff.1 longer)).symm

theorem quoteAt?_eq_some
    {glyphs : List Glyph} {spelling : List Char}
    (found : quoteAt? glyphs = some spelling) :
    spelling ∈ markupQuotes ∧ spelling.map .char <+: glyphs :=
  ⟨List.mem_of_find?_eq_some found, (startsWith_iff _ _).1 (by
    simpa using List.find?_some found)⟩

theorem quoteAt?_eq_none
    {glyphs : List Glyph}
    (missing : quoteAt? glyphs = none)
    {spelling : List Char}
    (member : spelling ∈ markupQuotes) :
    ¬ spelling.map .char <+: glyphs := by
  intro isPrefix
  exact List.find?_eq_none.1 missing spelling member ((startsWith_iff _ _).2 isPrefix)

theorem quoteAt?_of_opens
    {glyphs : List Glyph} {spelling : List Char}
    (member : spelling ∈ markupQuotes)
    (isPrefix : spelling.map .char <+: glyphs) :
    quoteAt? glyphs = some spelling := by
  cases found : quoteAt? glyphs with
  | none =>
      exact absurd isPrefix (quoteAt?_eq_none found member)
  | some other =>
      obtain ⟨otherMember, otherPrefix⟩ := quoteAt?_eq_some found
      rw [spelling_unique member otherMember isPrefix otherPrefix]

/-! ## Replacing in a whole text -/

theorem replaceQuotesFrom_eq (covered : Nat) (glyphs : List Glyph) :
    replaceQuotesFrom covered glyphs = replaceQuotes (glyphs.drop covered) := by
  induction covered generalizing glyphs with
  | zero =>
      rfl
  | succ covered inductionHypothesis =>
      cases glyphs with
      | nil => rfl
      | cons glyph rest => exact inductionHypothesis rest

theorem replaceQuotes_quote
    {spelling : List Char}
    (member : spelling ∈ markupQuotes)
    (rest : List Glyph) :
    replaceQuotes (spelling.map .char ++ rest) = .char '"' :: replaceQuotes rest := by
  have found := quoteAt?_of_opens member (List.prefix_append (spelling.map .char) rest)
  obtain ⟨c, tail, rfl, -⟩ := spelling_shape spelling member
  rw [List.map_cons, List.cons_append] at found ⊢
  rw [replaceQuotes, replaceQuotesFrom, found]
  simp [replaceQuotesFrom_eq]

theorem replaceQuotes_keep
    {glyph : Glyph} {rest : List Glyph}
    (noQuote : ∀ spelling ∈ markupQuotes, ¬ spelling.map .char <+: glyph :: rest) :
    replaceQuotes (glyph :: rest) = glyph :: replaceQuotes rest := by
  cases found : quoteAt? (glyph :: rest) with
  | none =>
      rw [replaceQuotes, replaceQuotesFrom, found]
      rfl
  | some spelling =>
      obtain ⟨member, isPrefix⟩ := quoteAt?_eq_some found
      exact absurd isPrefix (noQuote spelling member)

/-- A text is empty, opens with a spelling, or opens with a glyph that is kept. -/
theorem markup_cases
    (glyphs : List Glyph) :
    glyphs = [] ∨
      (∃ spelling ∈ markupQuotes, ∃ rest, glyphs = spelling.map .char ++ rest) ∨
      ∃ glyph rest, glyphs = glyph :: rest ∧
        ∀ spelling ∈ markupQuotes, ¬ spelling.map .char <+: glyph :: rest := by
  cases glyphs with
  | nil =>
      exact Or.inl rfl
  | cons glyph rest =>
      by_cases opens : ∃ spelling ∈ markupQuotes, spelling.map .char <+: glyph :: rest
      · obtain ⟨spelling, member, more, append⟩ := opens
        exact Or.inr (Or.inl ⟨spelling, member, more, append.symm⟩)
      · refine Or.inr (Or.inr ⟨glyph, rest, rfl, fun spelling member isPrefix => ?_⟩)
        exact opens ⟨spelling, member, isPrefix⟩

/-- An induction over a text along the replacement of spellings in it. -/
theorem markup_induction
    {motive : List Glyph → Prop}
    (nil : motive [])
    (quote : ∀ spelling ∈ markupQuotes, ∀ rest, motive rest →
      motive (spelling.map .char ++ rest))
    (keep : ∀ glyph rest,
      (∀ spelling ∈ markupQuotes, ¬ spelling.map .char <+: glyph :: rest) →
      motive rest → motive (glyph :: rest))
    (glyphs : List Glyph) :
    motive glyphs := by
  rcases markup_cases glyphs with
    empty | ⟨spelling, member, rest, whole⟩ | ⟨glyph, rest, whole, noQuote⟩
  · exact empty ▸ nil
  · rw [whole]
    exact quote spelling member rest (markup_induction nil quote keep rest)
  · rw [whole]
    exact keep glyph rest noQuote (markup_induction nil quote keep rest)
termination_by glyphs.length
decreasing_by
  · have positive := List.length_pos_of_ne_nil (spelling_ne_nil member)
    rw [whole, List.length_append, List.length_map]
    omega
  · rw [whole]
    exact Nat.lt_succ_self _

/-- The replacement does what the rules say, on what is shown for the glyphs. -/
theorem rewrites_replaceQuotes (glyphs : List Glyph) :
    Rewrites (glyphs.map shown) ((replaceQuotes glyphs).map shown) := by
  induction glyphs using markup_induction with
  | nil =>
      exact .nil
  | quote spelling member rest inductionHypothesis =>
      have asShown : (spelling.map Glyph.char).map shown = spelling := by
        rw [List.map_map]
        exact List.map_id spelling
      rw [replaceQuotes_quote member, List.map_append, asShown]
      exact .quote member inductionHypothesis
  | keep glyph rest noQuote inductionHypothesis =>
      rw [replaceQuotes_keep noQuote, List.map_cons, List.map_cons]
      refine .keep (fun spelling member isPrefix => ?_) inductionHypothesis
      exact noQuote spelling member
        ((prefix_map_shown_iff member (glyph :: rest)).1 isPrefix)

/-! ## What is held back -/

/-- The end of a text that is held back. -/
def heldBack (glyphs : List Glyph) : List Glyph :=
  glyphs.drop (glyphs.length - heldLength glyphs)

/-- The part of a text that is handed out. -/
def released (glyphs : List Glyph) : List Glyph :=
  glyphs.take (glyphs.length - heldLength glyphs)

theorem released_append_heldBack (glyphs : List Glyph) :
    released glyphs ++ heldBack glyphs = glyphs :=
  List.take_append_drop _ _

theorem startsQuote_iff (glyphs : List Glyph) :
    startsQuote glyphs = true ↔
      glyphs ≠ [] ∧ ∃ spelling ∈ markupQuotes,
        glyphs.length < spelling.length ∧ glyphs <+: spelling.map .char := by
  have taken : ∀ spelling : List Char,
      glyphs = (spelling.map .char).take glyphs.length ↔ glyphs <+: spelling.map .char :=
    fun spelling => List.prefix_iff_eq_take.symm
  simp [startsQuote, taken]

theorem startsQuote_of_shorter
    {first second : List Glyph}
    (starts : startsQuote second = true)
    (isPrefix : first <+: second)
    (nonempty : first ≠ []) :
    startsQuote first = true := by
  obtain ⟨-, spelling, member, shorter, ahead⟩ := (startsQuote_iff second).1 starts
  refine (startsQuote_iff first).2 ⟨nonempty, spelling, member, ?_, isPrefix.trans ahead⟩
  exact Nat.lt_of_le_of_lt isPrefix.length_le shorter

theorem heldLength_le (glyphs : List Glyph) :
    heldLength glyphs ≤ glyphs.length := by
  induction glyphs with
  | nil =>
      exact Nat.le_refl 0
  | cons glyph rest inductionHypothesis =>
      unfold heldLength
      split_ifs
      · exact Nat.le_refl _
      · exact Nat.le_succ_of_le inductionHypothesis

@[simp]
theorem heldBack_length (glyphs : List Glyph) :
    (heldBack glyphs).length = heldLength glyphs := by
  have bound := heldLength_le glyphs
  rw [heldBack, List.length_drop]
  omega

/-- No longer end of a text starts a spelling than the one that is held back. -/
theorem length_le_heldLength
    {glyphs tail : List Glyph}
    (isSuffix : tail <:+ glyphs)
    (starts : startsQuote tail = true) :
    tail.length ≤ heldLength glyphs := by
  induction glyphs with
  | nil =>
      rw [List.suffix_nil.1 isSuffix]
      exact Nat.zero_le _
  | cons glyph rest inductionHypothesis =>
      unfold heldLength
      rcases List.suffix_cons_iff.1 isSuffix with rfl | inRest
      · rw [if_pos starts, List.length_cons]
      · split_ifs
        · exact Nat.le_succ_of_le inRest.length_le
        · exact inductionHypothesis inRest

theorem heldBack_starts (glyphs : List Glyph) :
    heldBack glyphs = [] ∨ startsQuote (heldBack glyphs) = true := by
  induction glyphs with
  | nil =>
      exact Or.inl rfl
  | cons glyph rest inductionHypothesis =>
      by_cases starts : startsQuote (glyph :: rest) = true
      · have all : heldBack (glyph :: rest) = glyph :: rest := by
          simp [heldBack, heldLength, starts]
        rw [all]
        exact Or.inr starts
      · have same : heldBack (glyph :: rest) = heldBack rest := by
          have bound := heldLength_le rest
          have shift : rest.length + 1 - heldLength rest = rest.length - heldLength rest + 1 := by
            omega
          simp [heldBack, heldLength, starts, shift]
        rw [same]
        exact inductionHypothesis

/-- Glyphs in front do not matter when no spelling starts among them. -/
theorem heldLength_append
    {front rest : List Glyph}
    (bounded : ∀ tail, tail <:+ front ++ rest → startsQuote tail = true →
      tail.length ≤ rest.length) :
    heldLength (front ++ rest) = heldLength rest := by
  induction front with
  | nil =>
      rfl
  | cons glyph more inductionHypothesis =>
      have noStart : ¬ startsQuote (glyph :: (more ++ rest)) = true := by
        intro starts
        have bound := bounded _ (List.suffix_refl _) starts
        rw [List.length_append, List.length_cons] at bound
        omega
      rw [List.cons_append, heldLength, if_neg noStart]
      refine inductionHypothesis fun tail isSuffix starts => bounded tail ?_ starts
      exact isSuffix.trans (List.suffix_cons glyph _)

/-- Only so many last glyphs need to be looked at. -/
theorem heldLength_drop (glyphs : List Glyph) :
    heldLength (glyphs.drop (glyphs.length - holdLimit)) = heldLength glyphs := by
  have split := List.take_append_drop (glyphs.length - holdLimit) glyphs
  have bounded : ∀ tail,
      tail <:+ glyphs.take (glyphs.length - holdLimit) ++ glyphs.drop (glyphs.length - holdLimit) →
        startsQuote tail = true →
          tail.length ≤ (glyphs.drop (glyphs.length - holdLimit)).length := by
    intro tail isSuffix starts
    obtain ⟨-, spelling, member, shorter, -⟩ := (startsQuote_iff tail).1 starts
    have limit := spelling_length spelling member
    have inside := isSuffix.length_le
    rw [split] at inside
    rw [List.length_drop]
    omega
  have same := heldLength_append bounded
  rw [split] at same
  exact same.symm

theorem release_eq (held piece : List Glyph) :
    release held piece =
      (replaceQuotes (released (held ++ piece)), heldBack (held ++ piece)) := by
  simp only [release, heldLength_drop, released, heldBack]

/-! ## No spelling reaches into what is held back -/

/-- Whether a glyph is a sign that a spelling opens with. -/
def isOpener : Glyph → Bool
  | .char c => opensQuote c
  | .stray _ => false

theorem isOpener_head
    {glyph : Glyph} {rest : List Glyph}
    (starts : startsQuote (glyph :: rest) = true) :
    isOpener glyph = true := by
  obtain ⟨-, spelling, member, -, ahead⟩ := (startsQuote_iff _).1 starts
  obtain ⟨c, tail, rfl, opens, -⟩ := spelling_shape spelling member
  rw [List.map_cons, List.cons_prefix_cons] at ahead
  rw [ahead.1]
  exact opens

theorem isOpener_inside
    {front rest : List Glyph} {glyph : Glyph} {spelling : List Char}
    (member : spelling ∈ markupQuotes)
    (nonempty : front ≠ [])
    (ahead : front ++ glyph :: rest <+: spelling.map .char) :
    isOpener glyph = false := by
  obtain ⟨c, tail, rfl, -, inside⟩ := spelling_shape spelling member
  obtain ⟨first, more, rfl⟩ := List.exists_cons_of_ne_nil nonempty
  rw [List.map_cons, List.cons_append, List.cons_prefix_cons] at ahead
  have inTail : glyph ∈ tail.map Glyph.char :=
    ahead.2.subset (List.mem_append_right more List.mem_cons_self)
  obtain ⟨d, dMember, rfl⟩ := List.mem_map.1 inTail
  exact inside d dMember

/-- No spelling starts in the first part and reaches into the second one. -/
def Apart (front back : List Glyph) : Prop :=
  ∀ tail, tail <:+ front → tail ≠ [] → ∀ spelling ∈ markupQuotes,
    spelling.map .char <+: tail ++ back → spelling.map .char <+: tail

theorem Apart.of_shorter
    {front back shorter : List Glyph}
    (apart : Apart front back)
    (isPrefix : shorter <+: back) :
    Apart front shorter := by
  intro tail isSuffix nonempty spelling member ahead
  exact apart tail isSuffix nonempty spelling member
    (ahead.trans ((List.prefix_append_right_inj tail).2 isPrefix))

theorem Apart.of_suffix
    {front back tail : List Glyph}
    (apart : Apart front back)
    (isSuffix : tail <:+ front) :
    Apart tail back := by
  intro end' isEnd nonempty spelling member ahead
  exact apart end' (isEnd.trans isSuffix) nonempty spelling member ahead

/-- Parts that no spelling connects are replaced one by one. -/
theorem replaceQuotes_append
    {front back : List Glyph}
    (apart : Apart front back) :
    replaceQuotes (front ++ back) = replaceQuotes front ++ replaceQuotes back := by
  induction front using markup_induction with
  | nil =>
      rfl
  | quote spelling member rest inductionHypothesis =>
      have apartRest := apart.of_suffix (List.suffix_append (spelling.map Glyph.char) rest)
      rw [List.append_assoc, replaceQuotes_quote member, replaceQuotes_quote member,
        inductionHypothesis apartRest, List.cons_append]
  | keep glyph rest noQuote inductionHypothesis =>
      have apartRest := apart.of_suffix (List.suffix_cons glyph rest)
      have noQuoteHere : ∀ spelling ∈ markupQuotes,
          ¬ spelling.map Glyph.char <+: glyph :: (rest ++ back) := by
        intro spelling member ahead
        exact noQuote spelling member
          (apart _ (List.suffix_refl _) (List.cons_ne_nil _ _) spelling member ahead)
      rw [List.cons_append, replaceQuotes_keep noQuoteHere, replaceQuotes_keep noQuote,
        inductionHypothesis apartRest, List.cons_append]

theorem apart_heldBack (glyphs more : List Glyph) :
    Apart (released glyphs) (heldBack glyphs ++ more) := by
  intro tail isSuffix nonempty spelling member ahead
  rcases List.prefix_or_prefix_of_prefix ahead (List.prefix_append tail _) with inside | reaches
  · exact inside
  have reached : tail.length ≤ spelling.length := by
    simpa using reaches.length_le
  cases held : heldBack glyphs with
  | nil =>
      -- Nothing is held back, so the end in front does not start a spelling: it is all of one.
      have whole : tail <:+ glyphs := by
        have all := released_append_heldBack glyphs
        rw [held, List.append_nil] at all
        exact all ▸ isSuffix
      have noStart : ¬ startsQuote tail = true := by
        intro starts
        have bound := length_le_heldLength whole starts
        rw [← heldBack_length, held] at bound
        exact nonempty (List.eq_nil_of_length_eq_zero (Nat.le_zero.1 bound))
      have all : ¬ tail.length < spelling.length := fun shorter =>
        noStart ((startsQuote_iff tail).2 ⟨nonempty, spelling, member, shorter, reaches⟩)
      have same : tail = spelling.map .char :=
        reaches.eq_of_length (by rw [List.length_map]; omega)
      exact same ▸ List.prefix_refl _
  | cons glyph rest =>
      -- What is held back opens with a sign that no spelling has inside.
      have starts : startsQuote (glyph :: rest) = true := by
        rw [← held]
        exact (heldBack_starts glyphs).resolve_left (by simp [held])
      rw [held, List.cons_append] at ahead
      by_cases all : tail.length = spelling.length
      · have same : tail = spelling.map .char :=
          reaches.eq_of_length (by rw [List.length_map, all])
        exact same ▸ List.prefix_refl _
      · have further : tail ++ [glyph] <+: spelling.map .char := by
          refine List.prefix_of_prefix_length_le ⟨rest ++ more, ?_⟩ ahead ?_
          · rw [List.append_assoc, List.singleton_append]
          · rw [List.length_append, List.length_map, List.length_singleton]
            omega
        have notOpener := isOpener_inside member nonempty further
        rw [isOpener_head starts] at notOpener
        exact absurd notOpener (by decide)

/-! ## The replacement in pieces -/

theorem released_append_piece (glyphs piece : List Glyph) :
    released glyphs ++ (heldBack glyphs ++ piece) = glyphs ++ piece := by
  rw [← List.append_assoc, released_append_heldBack]

/-- What is held back decides, with the next piece, what is held back then. -/
theorem heldLength_piece (glyphs piece : List Glyph) :
    heldLength (glyphs ++ piece) = heldLength (heldBack glyphs ++ piece) := by
  rw [← released_append_piece]
  apply heldLength_append
  intro tail isSuffix starts
  rw [released_append_piece] at isSuffix
  rcases List.suffix_or_suffix_of_suffix isSuffix (List.suffix_append glyphs piece) with
    short | ⟨before, append⟩
  · rw [List.length_append]
    exact Nat.le_add_left_of_le short.length_le
  · rw [List.length_append, heldBack_length, ← append, List.length_append,
      Nat.add_le_add_iff_right]
    by_cases empty : before = []
    · rw [empty]
      exact Nat.zero_le _
    · refine length_le_heldLength ?_ (startsQuote_of_shorter starts ⟨piece, append⟩ empty)
      rw [← append] at isSuffix
      exact List.suffix_append_self_iff.1 isSuffix

theorem cut_piece (glyphs piece : List Glyph) :
    (glyphs ++ piece).length - heldLength (glyphs ++ piece) =
      (released glyphs).length +
        ((heldBack glyphs ++ piece).length - heldLength (heldBack glyphs ++ piece)) := by
  have bound := heldLength_le (heldBack glyphs ++ piece)
  have whole := congrArg List.length (released_append_piece glyphs piece)
  rw [List.length_append] at whole
  rw [heldLength_piece, ← whole]
  omega

theorem heldBack_piece (glyphs piece : List Glyph) :
    heldBack (glyphs ++ piece) = heldBack (heldBack glyphs ++ piece) := by
  calc heldBack (glyphs ++ piece)
      = (released glyphs ++ (heldBack glyphs ++ piece)).drop ((released glyphs).length +
          ((heldBack glyphs ++ piece).length - heldLength (heldBack glyphs ++ piece))) := by
        rw [released_append_piece, ← cut_piece]
        rfl
    _ = heldBack (heldBack glyphs ++ piece) := List.drop_length_add_append _

theorem released_piece (glyphs piece : List Glyph) :
    released (glyphs ++ piece) = released glyphs ++ released (heldBack glyphs ++ piece) := by
  calc released (glyphs ++ piece)
      = (released glyphs ++ (heldBack glyphs ++ piece)).take ((released glyphs).length +
          ((heldBack glyphs ++ piece).length - heldLength (heldBack glyphs ++ piece))) := by
        rw [released_append_piece, ← cut_piece]
        rfl
    _ = released glyphs ++ released (heldBack glyphs ++ piece) :=
        List.take_length_add_append _

/-- What has been handed out goes on with what the next piece releases. -/
theorem replaceQuotes_released_piece (glyphs piece : List Glyph) :
    replaceQuotes (released (glyphs ++ piece)) =
      replaceQuotes (released glyphs) ++
        replaceQuotes (released (heldBack glyphs ++ piece)) := by
  rw [released_piece]
  apply replaceQuotes_append
  apply (apart_heldBack glyphs piece).of_shorter
  exact List.take_prefix _ _

theorem replaceQuotes_of_noQuote
    {glyphs : List Glyph}
    (noQuote : ∀ tail, tail <:+ glyphs → ∀ spelling ∈ markupQuotes,
      ¬ spelling.map Glyph.char <+: tail) :
    replaceQuotes glyphs = glyphs := by
  induction glyphs with
  | nil =>
      rfl
  | cons glyph rest inductionHypothesis =>
      rw [replaceQuotes_keep (noQuote _ (List.suffix_refl _)), inductionHypothesis]
      intro tail isSuffix
      exact noQuote tail (isSuffix.trans (List.suffix_cons glyph rest))

/-- The start of a spelling holds no spelling. -/
theorem noQuote_of_startsQuote
    {held tail : List Glyph} {spelling : List Char}
    (starts : startsQuote held = true)
    (isSuffix : tail <:+ held)
    (member : spelling ∈ markupQuotes) :
    ¬ spelling.map Glyph.char <+: tail := by
  intro inside
  obtain ⟨-, whole, wholeMember, shorter, ahead⟩ := (startsQuote_iff held).1 starts
  obtain ⟨front, rfl⟩ := isSuffix
  cases front with
  | nil =>
      rw [List.nil_append] at shorter ahead
      have same := spelling_prefix_free spelling member whole wholeMember
        (map_char_prefix_iff.1 (inside.trans ahead))
      have fits := inside.length_le
      rw [List.length_map, same] at fits
      omega
  | cons first more =>
      obtain ⟨c, rest, rfl, opens, -⟩ := spelling_shape spelling member
      obtain ⟨behind, rfl⟩ := inside
      rw [List.map_cons, List.cons_append] at ahead
      have notOpener := isOpener_inside wholeMember (List.cons_ne_nil first more) ahead
      exact absurd (opens.symm.trans notOpener) (by decide)

/-- Nothing is replaced in what is held back. -/
theorem replaceQuotes_heldBack (glyphs : List Glyph) :
    replaceQuotes (heldBack glyphs) = heldBack glyphs := by
  rcases heldBack_starts glyphs with empty | starts
  · rw [empty]
    rfl
  · exact replaceQuotes_of_noQuote fun tail isSuffix spelling member =>
      noQuote_of_startsQuote starts isSuffix member

/-- When the text has ended, what is held back is all that is still to be handed out. -/
theorem replaceQuotes_eq (glyphs : List Glyph) :
    replaceQuotes glyphs = replaceQuotes (released glyphs) ++ heldBack glyphs := by
  have apart := apart_heldBack glyphs []
  rw [List.append_nil] at apart
  have split := replaceQuotes_append apart
  rwa [released_append_heldBack, replaceQuotes_heldBack] at split

/-! The two things that a piece releases, behind any text so far. -/

theorem release_held (glyphs piece : List Glyph) :
    (release (heldBack glyphs) piece).2 = heldBack (glyphs ++ piece) := by
  rw [release_eq, heldBack_piece glyphs piece]

theorem replaceQuotes_released_append (glyphs piece : List Glyph) :
    replaceQuotes (released (glyphs ++ piece)) =
      replaceQuotes (released glyphs) ++ (release (heldBack glyphs) piece).1 := by
  rw [release_eq, replaceQuotes_released_piece]

/-- With the last piece, both are handed out. -/
theorem replaceQuotes_append_last (glyphs piece : List Glyph) :
    replaceQuotes (glyphs ++ piece) =
      replaceQuotes (released glyphs) ++
        ((release (heldBack glyphs) piece).1 ++ (release (heldBack glyphs) piece).2) := by
  rw [replaceQuotes_eq, replaceQuotes_released_append, release_held, List.append_assoc]

/-! ## What the replacement does not touch -/

/-- Glyphs that occur in no spelling and are no quotation mark. -/
def Untouched (p : Glyph → Bool) : Prop :=
  p (.char '"') = false ∧ ∀ spelling ∈ markupQuotes, ∀ c ∈ spelling, p (.char c) = false

theorem untouched_isStray : Untouched isStray :=
  ⟨rfl, fun _ _ _ _ => rfl⟩

theorem untouched_lineFeed : Untouched (shown · == '\n') := by
  simp [Untouched, markupQuotes_eq, shown]

theorem countP_replaceQuotes
    {p : Glyph → Bool}
    (untouched : Untouched p)
    (glyphs : List Glyph) :
    (replaceQuotes glyphs).countP p = glyphs.countP p := by
  induction glyphs using markup_induction with
  | nil =>
      rfl
  | quote spelling member rest inductionHypothesis =>
      have none : (spelling.map Glyph.char).countP p = 0 := by
        rw [List.countP_eq_zero]
        intro glyph inSpelling
        obtain ⟨c, cMember, rfl⟩ := List.mem_map.1 inSpelling
        simp [untouched.2 spelling member c cMember]
      rw [replaceQuotes_quote member, List.countP_cons, inductionHypothesis, List.countP_append,
        none, untouched.1]
      simp
  | keep glyph rest noQuote inductionHypothesis =>
      rw [replaceQuotes_keep noQuote, List.countP_cons, List.countP_cons, inductionHypothesis]

theorem countP_heldBack
    {p : Glyph → Bool}
    (untouched : Untouched p)
    (glyphs : List Glyph) :
    (heldBack glyphs).countP p = 0 := by
  rcases heldBack_starts glyphs with empty | starts
  · rw [empty]
    rfl
  · obtain ⟨-, spelling, member, -, ahead⟩ := (startsQuote_iff _).1 starts
    rw [List.countP_eq_zero]
    intro glyph inHeld
    obtain ⟨c, cMember, rfl⟩ := List.mem_map.1 (ahead.subset inHeld)
    simp [untouched.2 spelling member c cMember]

/-- Stray bytes and line feeds are handed out at once. -/
theorem countP_released
    {p : Glyph → Bool}
    (untouched : Untouched p)
    (glyphs : List Glyph) :
    (replaceQuotes (released glyphs)).countP p = glyphs.countP p := by
  have split := congrArg (List.countP p) (released_append_heldBack glyphs)
  rw [List.countP_append, countP_heldBack untouched] at split
  rw [countP_replaceQuotes untouched]
  exact split

/-! ## The rules are unambiguous -/

theorem Rewrites.unique
    {text out other : List Char}
    (rewrites : Rewrites text out)
    (rewritesToo : Rewrites text other) :
    out = other := by
  induction rewrites generalizing other with
  | nil =>
      generalize whole : ([] : List Char) = text at rewritesToo
      cases rewritesToo with
      | nil => rfl
      | quote member _ =>
          exact absurd (List.append_eq_nil_iff.1 whole.symm).1 (spelling_ne_nil member)
      | keep _ _ => exact absurd whole.symm (List.cons_ne_nil _ _)
  | @quote spelling rest out member _ inductionHypothesis =>
      generalize whole : spelling ++ rest = text at rewritesToo
      cases rewritesToo with
      | nil => exact absurd (List.append_eq_nil_iff.1 whole).1 (spelling_ne_nil member)
      | @quote spellingToo restToo _ memberToo rewritesToo =>
          have glyphs := congrArg (List.map Glyph.char) whole
          rw [List.map_append, List.map_append] at glyphs
          have same : spelling = spellingToo :=
            spelling_unique member memberToo ⟨rest.map Glyph.char, glyphs⟩
              (List.prefix_append _ (restToo.map Glyph.char))
          rw [same, List.append_cancel_left_eq] at whole
          subst whole
          rw [inductionHypothesis rewritesToo]
      | keep noQuote _ => exact absurd ⟨rest, whole⟩ (noQuote spelling member)
  | @keep c rest out noQuote _ inductionHypothesis =>
      generalize whole : c :: rest = text at rewritesToo
      cases rewritesToo with
      | nil => exact absurd whole (List.cons_ne_nil c rest)
      | quote member _ => exact absurd ⟨_, whole.symm⟩ (noQuote _ member)
      | keep _ rewritesToo =>
          obtain ⟨rfl, rfl⟩ := List.cons.injEq .. ▸ whole
          rw [inductionHypothesis rewritesToo]

end NoticeScan.Reader
