import Mathlib
import NoticeScan.Proofs.LineIndex
import NoticeScan.Scan.Findings

/-!
# What a reader knows of its place

A reader is asked for parts of its text or handed to scanners. Each use delivers some text, or
fails, and the index of the reader is kept for what has been delivered so far.
-/

namespace NoticeScan.Reader

/-- A use of a reader: a request for a part of its text, or the scan of its next window. -/
inductive Use where
  | request (call : Call)
  | scan (scanner : Scanner) (size : Int)

namespace Use

/-- The reader that a use leaves behind. -/
def after : Use → Reader → Reader
  | .request call, reader => (call.run reader).2
  | .scan scanner size, reader => (scanner.scanNext reader size).2

/-- The text that a use delivers, delimiters included. A scan is delivered its window; what fails
delivers nothing. -/
def delivers : Use → Reader → List Char
  | .request call, reader => call.used (call.run reader).1
  | .scan scanner size, reader =>
      let window := Call.read (scanner.windowSize size)
      window.used (window.run reader).1

end Use

/-- Uses a reader several times: all the text that is delivered, and the reader left behind. -/
def runUses : List Use → Reader → List Char × Reader
  | [], reader => ([], reader)
  | use :: rest, reader =>
      let (later, last) := runUses rest (use.after reader)
      (use.delivers reader ++ later, last)

section Uses

variable {reader : Reader} {handed : List Char}

/-- A scan moves its reader on as the request for its window does, whatever it finds. -/
theorem scanNext_reader
    (scanner : Scanner)
    (size : Int)
    (reader : Reader) :
    (scanner.scanNext reader size).2 = (reader.read (scanner.windowSize size)).2 := by
  rw [Scanner.scanNext]
  rcases reader.read (scanner.windowSize size) with ⟨_ | _, next⟩ <;> rfl

theorem Indexed.use
    (indexed : Indexed reader handed)
    (use : Use) :
    Indexed (use.after reader) (handed ++ use.delivers reader) := by
  cases use with
  | request call => exact indexed.call call
  | scan scanner size =>
      have read := indexed.call (.read (scanner.windowSize size))
      rw [Use.after, scanNext_reader]
      exact read

theorem Indexed.runUses
    (indexed : Indexed reader handed)
    (uses : List Use) :
    Indexed (runUses uses reader).2 (handed ++ (runUses uses reader).1) := by
  induction uses generalizing reader handed with
  | nil =>
      rw [Reader.runUses, List.append_nil]
      exact indexed
  | cons use rest inductionHypothesis =>
      have later := inductionHypothesis (indexed.use use)
      rw [List.append_assoc] at later
      exact later

/-- After every run of uses, failing ones included, a reader counts the characters and the line
feeds that have been delivered, lists where their lines start, and finds the line of an offset;
a later offset is in no earlier line. -/
theorem runUses_index
    (name : String)
    (source : Source)
    (sizeHint : Int)
    (uses : List Use) :
    let reader : Reader := { name := name, source := source, sizeHint := sizeHint }
    let text := (runUses uses reader).1
    let last := (runUses uses reader).2
    last.charsRead = text.length ∧
      last.linesRead = text.count '\n' ∧
      last.lineStarts.size = last.linesRead + 1 ∧
      last.lineStarts.toList =
        0 :: ((List.range text.length).filter fun place => text[place]? = some '\n').map
          (· + 1) ∧
      (∀ offset : Nat, last.lineNumber offset = 1 + (text.take offset).count '\n') ∧
      Monotone last.lineNumber := by
  intro reader text last
  have indexed : Indexed last text := (indexed_start name source sizeHint).runUses uses
  refine ⟨indexed.charsRead, indexed.linesRead, ?_, ?_, indexed.lineNumber,
    indexed.lineNumber_monotone⟩
  · rw [← Array.length_toList, indexed.lineStarts, List.length_cons, length_startsFrom,
      indexed.linesRead]
  · rw [indexed.lineStarts, startsFrom_eq]
    simp only [Nat.zero_add]

end Uses

end NoticeScan.Reader
