import NoticeScan.Text.Utf8

/-!
# Quotes written in markup

Four spellings of a quotation mark are replaced by the mark itself. The text arrives in pieces,
so the end of a piece that may still become one of the spellings is held back until more is
known.
-/

namespace NoticeScan.Reader

open NoticeScan.Text

/-- The spellings of a quotation mark. -/
def markupQuotes : List (List Char) :=
  ["&quot;".toList, "&#34;".toList, "<var>".toList, "</var>".toList]

/-- Whether a text starts with a spelling. -/
def startsWith : List Char → List Glyph → Bool
  | [], _ => true
  | c :: rest, .char d :: glyphs => c == d && startsWith rest glyphs
  | _ :: _, _ => false

/-- The spelling that a text starts with. -/
def quoteAt? (glyphs : List Glyph) : Option (List Char) :=
  markupQuotes.find? fun quote => startsWith quote glyphs

/-- A text with every spelling replaced, from left to right. The first `covered` glyphs belong
to a spelling that has been replaced already. -/
def replaceQuotesFrom : (covered : Nat) → List Glyph → List Glyph
  | _, [] => []
  | covered + 1, _ :: rest => replaceQuotesFrom covered rest
  | 0, glyph :: rest =>
      match quoteAt? (glyph :: rest) with
      | some quote => .char '"' :: replaceQuotesFrom (quote.length - 1) rest
      | none => glyph :: replaceQuotesFrom 0 rest

/-- A text with every spelling replaced. -/
def replaceQuotes (glyphs : List Glyph) : List Glyph :=
  replaceQuotesFrom 0 glyphs

/-- Whether glyphs are the start of a spelling, but not all of it and not nothing. -/
def startsQuote (glyphs : List Glyph) : Bool :=
  !glyphs.isEmpty &&
    markupQuotes.any fun quote =>
      glyphs.length < quote.length && glyphs == (quote.take glyphs.length).map .char

/-- The number of glyphs that can be held back. -/
def holdLimit : Nat :=
  (markupQuotes.map List.length).foldl max 0 - 1

/-- The length of the longest end of a text that starts a spelling; zero if there is none. -/
def heldLength : List Glyph → Nat
  | [] => 0
  | glyph :: rest =>
      if startsQuote (glyph :: rest) then rest.length + 1 else heldLength rest

/-- What can be handed out of a piece behind the glyphs held back before, and what is held back
now. -/
def release (held piece : List Glyph) : List Glyph × List Glyph :=
  let text := held ++ piece
  let keep := heldLength (text.drop (text.length - holdLimit))
  let cut := text.length - keep
  (replaceQuotes (text.take cut), text.drop cut)

end NoticeScan.Reader
