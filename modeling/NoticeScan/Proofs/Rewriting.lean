import NoticeScan.Proofs.Markup

/-!
# Rewriting a text that arrives in pieces

It makes no difference in which pieces a text arrives: what is handed out for the pieces, with
what is held back in the end, is the text as a whole with the spellings of a quotation mark
replaced. Behind every piece just the longest end is held back that may still become a spelling,
and no spelling comes about in what is handed out.
-/

namespace NoticeScan.Reader

open NoticeScan.Text

/-! ## Keys -/

section Keys

variable {α : Type}

/-- A text that a key starts with, but not the whole key. -/
def StartsKey (keys : List (List α)) (start : List α) : Prop :=
  ∃ key ∈ keys, start <+: key ∧ start ≠ key

/-- The longest end of a text that may still become a key. -/
structure LongestStart (keys : List (List α)) (text held : List α) : Prop where
  isEnd : held <:+ text
  starts : StartsKey keys held
  longest : ∀ other, other <:+ text → StartsKey keys other → other.length ≤ held.length

end Keys

/-- The spellings of a quotation mark, as they are decoded. -/
def quoteKeys : List (List Glyph) :=
  markupQuotes.map fun spelling => spelling.map .char

theorem mem_quoteKeys {key : List Glyph} :
    key ∈ quoteKeys ↔ ∃ spelling ∈ markupQuotes, key = spelling.map .char := by
  simp [quoteKeys, eq_comm]

/-! ## No spelling comes about -/

/-- What a rewritten text starts with was there before, up to the first mark. -/
theorem prefix_of_prefix_replaceQuotes
    {front glyphs : List Glyph}
    (noMark : .char '"' ∉ front)
    (ahead : front <+: replaceQuotes glyphs) :
    front <+: glyphs := by
  induction glyphs using markup_induction generalizing front with
  | nil => exact ahead
  | quote spelling inMarkup rest inductionHypothesis =>
      rw [replaceQuotes_quote inMarkup] at ahead
      cases front with
      | nil => exact List.nil_prefix
      | cons first more =>
          rw [(List.cons_prefix_cons.mp ahead).1] at noMark
          exact absurd List.mem_cons_self noMark
  | keep glyph rest noQuote inductionHypothesis =>
      rw [replaceQuotes_keep noQuote] at ahead
      cases front with
      | nil => exact List.nil_prefix
      | cons first more =>
          obtain ⟨same, behind⟩ := List.cons_prefix_cons.mp ahead
          have noMarkBehind : .char '"' ∉ more := fun inside =>
            noMark (List.mem_cons_of_mem first inside)
          exact List.cons_prefix_cons.mpr ⟨same, inductionHypothesis noMarkBehind behind⟩

theorem mark_notMem
    {spelling : List Char}
    (member : spelling ∈ markupQuotes) :
    Glyph.char '"' ∉ spelling.map .char := by
  have noMark : ∀ other ∈ markupQuotes, '"' ∉ other := by decide
  simpa using noMark spelling member

/-- No spelling is left in a rewritten text, and none has been made by rewriting it. -/
theorem not_infix_replaceQuotes
    {spelling : List Char}
    (member : spelling ∈ markupQuotes)
    (glyphs : List Glyph) :
    ¬ spelling.map .char <:+: replaceQuotes glyphs := by
  induction glyphs using markup_induction with
  | nil =>
      intro inside
      exact spelling_ne_nil member (List.map_eq_nil_iff.mp (List.infix_nil.mp inside))
  | quote other inMarkup rest inductionHypothesis =>
      rw [replaceQuotes_quote inMarkup, List.infix_cons_iff]
      rintro (ahead | inside)
      · obtain ⟨c, tail, rfl, -⟩ := spelling_shape spelling member
        have mark := (List.cons_prefix_cons.mp ahead).1
        exact mark_notMem member (mark ▸ List.mem_cons_self)
      · exact inductionHypothesis inside
  | keep glyph rest noQuote inductionHypothesis =>
      rw [replaceQuotes_keep noQuote, List.infix_cons_iff, ← replaceQuotes_keep noQuote]
      rintro (ahead | inside)
      · exact noQuote spelling member (prefix_of_prefix_replaceQuotes (mark_notMem member) ahead)
      · exact inductionHypothesis inside

/-- Rewriting a text again changes nothing. -/
theorem replaceQuotes_replaceQuotes (glyphs : List Glyph) :
    replaceQuotes (replaceQuotes glyphs) = replaceQuotes glyphs := by
  apply replaceQuotes_of_noQuote
  intro tail isSuffix spelling member ahead
  exact not_infix_replaceQuotes member glyphs (ahead.isInfix.trans isSuffix.isInfix)

/-! ## What is held back -/

theorem startsKey_iff {start : List Glyph} :
    StartsKey quoteKeys start ↔ start = [] ∨ startsQuote start = true := by
  constructor
  · rintro ⟨key, member, ahead, notAll⟩
    obtain ⟨spelling, inMarkup, rfl⟩ := mem_quoteKeys.mp member
    by_cases empty : start = []
    · exact Or.inl empty
    · refine Or.inr ((startsQuote_iff start).mpr ⟨empty, spelling, inMarkup, ?_, ahead⟩)
      rw [← List.length_map (f := Glyph.char)]
      exact lt_of_le_of_ne ahead.length_le fun same => notAll (ahead.eq_of_length same)
  · rintro (rfl | starts)
    · have member : ['<', 'v', 'a', 'r', '>'] ∈ markupQuotes := by decide
      exact ⟨_, mem_quoteKeys.mpr ⟨_, member, rfl⟩, List.nil_prefix, List.cons_ne_nil _ _ |>.symm⟩
    · obtain ⟨-, spelling, inMarkup, shorter, ahead⟩ := (startsQuote_iff start).mp starts
      refine ⟨_, mem_quoteKeys.mpr ⟨spelling, inMarkup, rfl⟩, ahead, ?_⟩
      rintro rfl
      exact absurd shorter (by rw [List.length_map]; exact Nat.lt_irrefl _)

theorem longestStart_heldBack (glyphs : List Glyph) :
    LongestStart quoteKeys glyphs (heldBack glyphs) where
  isEnd := List.drop_suffix _ _
  starts := startsKey_iff.mpr (heldBack_starts glyphs)
  longest other isEnd starts := by
    rcases startsKey_iff.mp starts with rfl | starts
    · exact Nat.zero_le _
    · rw [heldBack_length]
      exact length_le_heldLength isEnd starts

/-! ## Pieces -/

/-- What is handed out for pieces that arrive one after the other, behind what is held back at
first, and what is held back in the end. -/
def releaseAll : (held : List Glyph) → List (List Glyph) → List (List Glyph) × List Glyph
  | held, [] => ([], held)
  | held, piece :: more =>
      let (ready, kept) := release held piece
      let (readyMore, last) := releaseAll kept more
      (ready :: readyMore, last)

/-- A text in pieces, rewritten: what is handed out for them, and then what is still held back. -/
def rewritePieces (pieces : List (List Glyph)) : List Glyph :=
  (releaseAll [] pieces).1.flatten ++ (releaseAll [] pieces).2

/-- What is held back is all that the pieces so far matter for. -/
theorem releaseAll_append (held : List Glyph) (before after : List (List Glyph)) :
    releaseAll held (before ++ after) =
      let between := releaseAll held before
      let rest := releaseAll between.2 after
      (between.1 ++ rest.1, rest.2) := by
  induction before generalizing held with
  | nil => rfl
  | cons piece more inductionHypothesis =>
      simp only [List.cons_append, releaseAll, inductionHypothesis]

/-- Behind any text so far, pieces go on with what is handed out and held back for it. -/
theorem releaseAll_heldBack (glyphs : List Glyph) (pieces : List (List Glyph)) :
    replaceQuotes (released glyphs) ++ (releaseAll (heldBack glyphs) pieces).1.flatten =
        replaceQuotes (released (glyphs ++ pieces.flatten)) ∧
      (releaseAll (heldBack glyphs) pieces).2 = heldBack (glyphs ++ pieces.flatten) := by
  induction pieces generalizing glyphs with
  | nil => simp [releaseAll]
  | cons piece more inductionHypothesis =>
      obtain ⟨handedOut, kept⟩ := inductionHypothesis (glyphs ++ piece)
      rw [replaceQuotes_released_append, List.append_assoc, List.append_assoc] at handedOut
      rw [List.append_assoc] at kept
      simp only [releaseAll, release_held, List.flatten_cons]
      exact ⟨handedOut, kept⟩

theorem releaseAll_held (pieces : List (List Glyph)) :
    (releaseAll [] pieces).2 = heldBack pieces.flatten :=
  (releaseAll_heldBack [] pieces).2

theorem rewritePieces_eq (pieces : List (List Glyph)) :
    rewritePieces pieces = replaceQuotes pieces.flatten := by
  have handedOut : (releaseAll [] pieces).1.flatten = replaceQuotes (released pieces.flatten) :=
    (releaseAll_heldBack [] pieces).1
  rw [rewritePieces, handedOut, releaseAll_held, ← replaceQuotes_eq]

/-- A text is rewritten alike in whatever pieces it arrives: every spelling of a quotation mark is
replaced, from left to right. Between any two pieces the longest end of the text so far is held
back that may still become a spelling. In the rewritten text there is no spelling any more, so
that rewriting it again, in pieces of any kind, changes nothing. -/
theorem rewritePieces_rewrites (pieces : List (List Glyph)) :
    rewritePieces pieces = replaceQuotes pieces.flatten ∧
    (∀ out, Rewrites (pieces.flatten.map shown) out ↔ out = (rewritePieces pieces).map shown) ∧
    (∀ before after, pieces = before ++ after →
      let held := (releaseAll [] before).2
      LongestStart quoteKeys before.flatten held ∧
        releaseAll [] pieces =
          ((releaseAll [] before).1 ++ (releaseAll held after).1, (releaseAll held after).2)) ∧
    (∀ key ∈ quoteKeys, ¬ key <:+: rewritePieces pieces) ∧
    ∀ again, again.flatten = rewritePieces pieces →
      rewritePieces again = rewritePieces pieces := by
  refine ⟨rewritePieces_eq pieces, ?_, ?_, ?_, ?_⟩
  · intro out
    have rewrites := rewrites_replaceQuotes pieces.flatten
    rw [rewritePieces_eq]
    exact ⟨fun other => other.unique rewrites, fun same => same ▸ rewrites⟩
  · rintro before after rfl
    refine ⟨?_, releaseAll_append [] before after⟩
    rw [releaseAll_held]
    exact longestStart_heldBack before.flatten
  · intro key member
    obtain ⟨spelling, inMarkup, rfl⟩ := mem_quoteKeys.mp member
    rw [rewritePieces_eq]
    exact not_infix_replaceQuotes inMarkup pieces.flatten
  · intro again same
    rw [rewritePieces_eq again, same, rewritePieces_eq, replaceQuotes_replaceQuotes]

/-- A spelling that is cut twice, and one that is begun and not ended. -/
example :
    releaseAll [] ["a&q".toList.map .char, "uot".toList.map .char, ";<v".toList.map .char] =
      (["a".toList.map .char, [], [.char '"']], "<v".toList.map .char) := by
  decide

end NoticeScan.Reader
