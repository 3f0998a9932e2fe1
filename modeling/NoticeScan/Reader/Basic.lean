import NoticeScan.Reader.Markup
import NoticeScan.Reader.Source
import NoticeScan.Reader.Substitution
import NoticeScan.Text.Runs

/-!
# Reading text from a source

A reader decodes the bytes of a source into characters, hands them out in pieces of any size and
knows in which line each character stands that it has handed out. It gives up on a source that
has yielded more stray bytes than lines, since the rest of it is no text. When a fetch fails,
nothing that has been decoded before is lost.
-/

namespace NoticeScan

open NoticeScan.Text

/-- A reader. What has been decoded and not handed out is in `buffer`. -/
structure Reader where
  name : String
  source : Source
  /-- The number of bytes that the source is said to hold; negative if nothing is known. -/
  sizeHint : Int := -1
  /-- The number of characters handed out. -/
  charsRead : Nat := 0
  /-- The number of lines that have been handed out to their end. -/
  linesRead : Nat := 0
  /-- Where lines start in what has been handed out. -/
  lineStarts : Array Nat := #[0]
  /-- Where the first stray byte is shown. -/
  firstStray : Option Nat := none
  /-- The number of stray bytes decoded. -/
  strayCount : Nat := 0
  buffer : Array Char := #[]
  /-- The number of lines decoded. -/
  linesDecoded : Nat := 0
  decoding : Utf8.State := none
  /-- Glyphs that may turn out to start a quotation mark in markup. -/
  held : List Glyph := []
  ended : Bool := false
  closed : Bool := false
  /-- The numbers of stray bytes and of lines at which the source was given up. -/
  gaveUp : Option (Nat × Nat) := none
  deriving Repr, DecidableEq

namespace Reader

/-- A fetch that has failed, with the place that had been reached. -/
structure Failure where
  name : String
  line : Nat
  column : Nat
  offset : Nat
  reason : String
  deriving Repr, DecidableEq

/-- The wording of a failure. -/
def Failure.message (failure : Failure) : String :=
  failure.name ++ ":" ++ toString failure.line ++ ":" ++ toString failure.column ++
    " (offset " ++ toString failure.offset ++ "): " ++ failure.reason

/-- The number of characters decoded. -/
def charsDecoded (reader : Reader) : Nat :=
  reader.charsRead + reader.buffer.size

/-- The line in which a character stands, counted from one. -/
def lineNumber (reader : Reader) (offset : Int) : Nat :=
  if 0 < offset then rank reader.lineStarts offset.toNat else 1

/-! ## Fetching -/

/-- Adds decoded glyphs to the buffer. -/
def accept (reader : Reader) (glyphs : List Glyph) : Reader :=
  let first :=
    match reader.firstStray with
    | some offset => some offset
    | none => (glyphs.findIdx? isStray).map (reader.charsDecoded + ·)
  { reader with
    firstStray := first
    strayCount := reader.strayCount + glyphs.countP isStray
    buffer := reader.buffer ++ (glyphs.map shown).toArray
    linesDecoded := reader.linesDecoded + glyphs.countP (shown · == '\n') }

/-- Ends the reading: what is incomplete stays as it is. -/
def finish (reader : Reader) : Reader :=
  let (ready, rest) := release reader.held (Utf8.abandon reader.decoding)
  { reader.accept (ready ++ rest) with decoding := none, held := [], ended := true }

/-- Decodes a block of bytes. -/
def take (reader : Reader) (block : List UInt8) : Reader :=
  let (glyphs, decoding) := Utf8.feed reader.decoding block
  let (ready, held) := release reader.held glyphs
  { reader.accept ready with decoding := decoding, held := held }

/-- The failure of a fetch at the place reached. -/
def failureAt (reader : Reader) (reason : String) : Failure where
  name := reader.name
  line := reader.lineStarts.size
  column := reader.charsRead - reader.lineStarts.back?.getD 0 + 1
  offset := reader.charsRead
  reason := reason

/-- Fetches one block, or gives up. -/
def fill (reader : Reader) : Except Failure Unit × Reader :=
  if reader.linesDecoded < reader.strayCount then
    (.ok (), { reader.finish with gaveUp := some (reader.strayCount, reader.linesDecoded) })
  else
    match reader.source.fetch with
    | (.failure reason, source) =>
        (.error (reader.failureAt reason), { reader with source := source })
    | (.bytes [], source) => (.ok (), { reader with source := source }.finish)
    | (.bytes block, source) => (.ok (), { reader with source := source }.take block)

/-- Fetches blocks as long as they are wanted, at most the given number of them. -/
def fillWhile (wanted : Reader → Bool) : Nat → Reader → Except Failure Unit × Reader
  | 0, reader => (.ok (), reader)
  | count + 1, reader =>
      if reader.ended || !wanted reader then
        (.ok (), reader)
      else
        match reader.fill with
        | (.ok (), next) => fillWhile wanted count next
        | (.error failure, next) => (.error failure, next)

/-- A bound on the number of blocks that can be fetched before the source has ended or failed. -/
def fetchBound (reader : Reader) : Nat :=
  reader.source.fetches.length + 1

/-! ## Handing out -/

/-- The starts of the lines behind the line feeds of a text that begins at an offset. -/
def lineStartsIn (offset : Nat) (text : Array Char) : List Nat :=
  (text.foldl (fun (place, found) c =>
    (place + 1, if c == '\n' then (place + 1) :: found else found)) (offset, [])).2.reverse

/-- Counts a text as handed out. -/
def consume (reader : Reader) (text : Array Char) : Reader :=
  let starts := lineStartsIn reader.charsRead text
  { reader with
    charsRead := reader.charsRead + text.size
    linesRead := reader.linesRead + starts.length
    lineStarts := reader.lineStarts ++ starts.toArray }

/-- Whether the buffer does not yet hold enough for a request; a negative one asks for all. -/
def lacks (size : Int) (reader : Reader) : Bool :=
  size < 0 || reader.buffer.size < size

/-- Hands out the next characters, as many as asked for if there are, or all for a negative
number. -/
def read (reader : Reader) (size : Int) : Except Failure (Array Char) × Reader :=
  match fillWhile (lacks size) reader.fetchBound reader with
  | (.error failure, next) => (.error failure, next)
  | (.ok (), next) =>
      let count := if size < 0 then next.buffer.size else min size.toNat next.buffer.size
      let text := next.buffer.extract 0 count
      let rest := next.buffer.extract count next.buffer.size
      (.ok text, { next with buffer := rest }.consume text)

/-- Where a text first occurs in another one, which starts at an offset. -/
def findFrom (part : List Char) : Nat → List Char → Option Nat
  | offset, [] => if part.isEmpty then some offset else none
  | offset, c :: rest =>
      if part.isPrefixOf (c :: rest) then some offset else findFrom part (offset + 1) rest

/-- Where a delimiter first occurs in the buffer. -/
def findInBuffer (reader : Reader) (delimiter : List Char) : Option Nat :=
  findFrom delimiter 0 reader.buffer.toList

/-- Hands out the text up to the next delimiter, with the number of characters used up, the
delimiter included; nothing when there is no more text. -/
def readDelimited (reader : Reader) (delimiter : List Char) :
    Except Failure (Option (Nat × Array Char)) × Reader :=
  let wanted (state : Reader) := (state.findInBuffer delimiter).isNone
  match fillWhile wanted reader.fetchBound reader with
  | (.error failure, next) => (.error failure, next)
  | (.ok (), next) =>
      match next.findInBuffer delimiter with
      | some place =>
          let count := place + delimiter.length
          let used := next.buffer.extract 0 count
          let rest := next.buffer.extract count next.buffer.size
          (.ok (some (count, next.buffer.extract 0 place)),
            { next with buffer := rest }.consume used)
      | none =>
          if next.buffer.isEmpty then
            (.ok none, next)
          else
            let text := next.buffer
            (.ok (some (text.size, text)), { next with buffer := #[] }.consume text)

/-- Closes the source, the first time it is called. -/
def close (reader : Reader) : Reader :=
  if reader.closed then reader
  else { reader with closed := true, source := reader.source.close }

end Reader

end NoticeScan
