import Mathlib
import NoticeScan.Proofs.Interruptions

/-!
# What becomes of stray bytes

A byte is stray when it belongs to no well-formed sequence of the bytes that have been fetched.
A reader that has handed out everything has counted just these bytes, knows where the first of
them is shown, and has lost none: characters and stray bytes put back in place are the bytes that
were fetched. So the length of the text is told by these counts and by the quotes replaced in it.
-/

namespace NoticeScan

open NoticeScan.Text

/-- The bytes that a glyph stands for. -/
def Text.Glyph.bytes : Glyph → List UInt8
  | .char c => Utf8.encodeChar c
  | .stray b => [b]

/-! ## Which bytes are stray -/

namespace Text.Utf8

end Text.Utf8

/-! ## What a source has handed out -/

/-- The bytes of a fetch; one that fails has none. -/
def Fetch.block : Fetch → List UInt8
  | .bytes block => block
  | .failure _ => []

/-- The bytes that the first fetches from a source return, and the source behind them. -/
def Source.fetched (source : Source) : Nat → List UInt8 × Source
  | 0 => ([], source)
  | count + 1 =>
      let (bytes, behind) := source.fetched count
      (bytes ++ behind.fetch.1.block, behind.fetch.2)

theorem Source.fetched_succ
    (source : Source)
    (count : Nat) :
    source.fetched (count + 1) =
      ((source.fetched count).1 ++ (source.fetched count).2.fetch.1.block,
        (source.fetched count).2.fetch.2) :=
  rfl

theorem Source.fetched_reads
    (source : Source)
    (count : Nat) :
    (source.fetched count).2.reads = source.reads + count := by
  induction count with
  | zero => rfl
  | succ count inductionHypothesis =>
      rw [Source.fetched, Source.fetch_reads, inductionHypothesis, Nat.add_assoc]

namespace Reader

/-! ## Replacing quotes beside a stray byte -/

/-- What a text becomes when quotes are replaced in it, and the spellings that are replaced. -/
inductive Replaces : List Char → List (List Char) → List Char → Prop
  | nil : Replaces [] [] []
  | quote {spelling rest out : List Char} {spellings : List (List Char)} :
      spelling ∈ markupQuotes →
      Replaces rest spellings out →
      Replaces (spelling ++ rest) (spelling :: spellings) ('"' :: out)
  | keep {c : Char} {rest out : List Char} {spellings : List (List Char)} :
      (∀ spelling ∈ markupQuotes, ¬ spelling <+: c :: rest) →
      Replaces rest spellings out → Replaces (c :: rest) spellings (c :: out)

/-- A spelling that is replaced makes the text shorter by all its signs but one. -/
theorem Replaces.length_eq
    {text out : List Char} {spellings : List (List Char)}
    (replaces : Replaces text spellings out) :
    out.length + (spellings.map (·.length - 1)).sum = text.length := by
  induction replaces with
  | nil => rfl
  | @quote spelling _ _ _ member _ inductionHypothesis =>
      have positive := List.length_pos_of_ne_nil (spelling_ne_nil member)
      rw [List.length_cons, List.map_cons, List.sum_cons, List.length_append,
        ← inductionHypothesis]
      omega
  | keep _ _ inductionHypothesis =>
      rw [List.length_cons, List.length_cons, ← inductionHypothesis]
      omega

/-- A reader has taken over some glyphs, has handed out a part of what they are shown as, and has
kept an account of the stray bytes among them. -/
structure Recorded (reader : Reader) (handed : List Char) (glyphs : List Glyph) : Prop where
  text : handed ++ reader.buffer.toList = glyphs.map shown
  charsRead : reader.charsRead = handed.length
  firstStray : reader.firstStray = glyphs.findIdx? isStray
  strayCount : reader.strayCount = glyphs.countP isStray

section Recording

variable {reader : Reader} {handed : List Char} {glyphs : List Glyph}

theorem Recorded.accept
    (recorded : Recorded reader handed glyphs)
    (more : List Glyph) :
    Recorded (reader.accept more) handed (glyphs ++ more) where
  text := by
    have buffer : (reader.accept more).buffer.toList =
        reader.buffer.toList ++ more.map shown := by
      simp [Reader.accept]
    rw [buffer, ← List.append_assoc, recorded.text, List.map_append]
  charsRead := recorded.charsRead
  firstStray := by
    have decoded : reader.charsDecoded = glyphs.length := by
      have length := congrArg List.length recorded.text
      have size : reader.buffer.toList.length = reader.buffer.size := Array.length_toList
      rw [List.length_append, List.length_map, size] at length
      rw [charsDecoded, recorded.charsRead, length]
    have first : (reader.accept more).firstStray =
        reader.firstStray.or ((more.findIdx? isStray).map (reader.charsDecoded + ·)) := by
      rw [Reader.accept]
      cases reader.firstStray <;> rfl
    rw [first, recorded.firstStray, decoded, List.findIdx?_append]
    simp only [Nat.add_comm]
  strayCount := by
    rw [List.countP_append, ← recorded.strayCount]
    rfl

theorem Recorded.behind
    (recorded : Recorded reader handed glyphs)
    (length : Nat) :
    Recorded (reader.behind length) (handed ++ reader.buffer.toList.take length) glyphs where
  text := by
    rw [behind_buffer, List.append_assoc, List.take_append_drop]
    exact recorded.text
  charsRead := by
    have added : (reader.behind length).charsRead =
        reader.charsRead + (reader.buffer.extract 0 length).size := rfl
    rw [added, recorded.charsRead, List.length_append, ← Array.length_toList]
    simp
  firstStray := recorded.firstStray
  strayCount := recorded.strayCount

/-- A reader has decoded some bytes, which may go on until the reading has ended, and has recorded
what can be handed out for them. -/
inductive Accounts (bytes : List UInt8) (handed : List Char) (reader : Reader) : Prop
  | running :
      reader.ended = false →
      reader.decoding = (Utf8.feed none bytes).2 →
      reader.held = heldBack (settled bytes) →
      Recorded reader handed (replaceQuotes (released (settled bytes))) →
      Accounts bytes handed reader
  | finished :
      reader.ended = true →
      Recorded reader handed (replaceQuotes (Utf8.decode bytes)) →
      Accounts bytes handed reader

namespace Accounts

variable {bytes : List UInt8}

/-- A source that is used up further, or a note on why reading has ended, changes no account. -/
theorem noted
    (accounts : Accounts bytes handed reader)
    (source : Source)
    (gaveUp : Option (Nat × Nat)) :
    Accounts bytes handed { reader with source := source, gaveUp := gaveUp } := by
  cases accounts with
  | running goesOn decoding held recorded =>
      exact .running goesOn decoding held
        ⟨recorded.text, recorded.charsRead, recorded.firstStray, recorded.strayCount⟩
  | finished ended recorded =>
      exact .finished ended
        ⟨recorded.text, recorded.charsRead, recorded.firstStray, recorded.strayCount⟩

theorem take
    (accounts : Accounts bytes handed reader)
    (goesOn : reader.ended = false)
    (block : List UInt8) :
    Accounts (bytes ++ block) handed (reader.take block) := by
  cases accounts with
  | finished ended _ =>
      rw [ended] at goesOn
      cases goesOn
  | running _ decoding held recorded =>
      have feed := Utf8.feed_append none bytes block
      rw [← decoding] at feed
      have glyphs : settled (bytes ++ block) =
          settled bytes ++ (Utf8.feed reader.decoding block).1 :=
        congrArg Prod.fst feed
      have accepted := recorded.accept (release reader.held (Utf8.feed reader.decoding block).1).1
      apply Accounts.running
      · exact goesOn
      · rw [take_decoding, feed]
      · rw [take_held, held, release_held, glyphs]
      · rw [glyphs, replaceQuotes_released_append, ← held]
        exact ⟨accepted.text, accepted.charsRead, accepted.firstStray, accepted.strayCount⟩

theorem finish
    (accounts : Accounts bytes handed reader)
    (goesOn : reader.ended = false) :
    Accounts bytes handed reader.finish := by
  cases accounts with
  | finished ended _ =>
      rw [ended] at goesOn
      cases goesOn
  | running _ decoding held recorded =>
      have decode : Utf8.decode bytes = settled bytes ++ Utf8.abandon reader.decoding := by
        rw [decoding]
        rfl
      have accepted := recorded.accept
        ((release reader.held (Utf8.abandon reader.decoding)).1 ++
          (release reader.held (Utf8.abandon reader.decoding)).2)
      rw [held, ← replaceQuotes_append_last, ← decode, ← held] at accepted
      apply Accounts.finished rfl
      exact ⟨accepted.text, accepted.charsRead, accepted.firstStray, accepted.strayCount⟩

end Accounts

/-- A reader stands somewhere in a source and keeps accounts of what has been fetched from it. -/
def KeepsAccounts (source : Source) (handed : List Char) (reader : Reader) : Prop :=
  ∃ count, reader.source = (source.fetched count).2 ∧
    Accounts (source.fetched count).1 handed reader

namespace KeepsAccounts

variable {source : Source}

theorem start (name : String) (source : Source) (sizeHint : Int) :
    KeepsAccounts source [] { name := name, source := source, sizeHint := sizeHint } :=
  ⟨0, rfl, .running rfl rfl rfl ⟨rfl, rfl, rfl, rfl⟩⟩

theorem fill
    (keeps : KeepsAccounts source handed reader)
    (goesOn : reader.ended = false) :
    KeepsAccounts source handed reader.fill.2 := by
  obtain ⟨count, here, accounts⟩ := keeps
  rw [Reader.fill]
  by_cases overrun : reader.linesDecoded < reader.strayCount
  · rw [if_pos overrun]
    have finished := (accounts.finish goesOn).noted reader.source
      (some (reader.strayCount, reader.linesDecoded))
    exact ⟨count, here, finished⟩
  · rw [if_neg overrun]
    have used := accounts.noted reader.source.fetch.2 reader.gaveUp
    have behind : (source.fetched (count + 1)).2 = reader.source.fetch.2 := by
      rw [Source.fetched, here]
    have bytes : (source.fetched (count + 1)).1 =
        (source.fetched count).1 ++ reader.source.fetch.1.block := by
      rw [Source.fetched, here]
    refine ⟨count + 1, ?_⟩
    rw [behind, bytes]
    revert used
    rcases reader.source.fetch with ⟨fetch, next⟩
    intro used
    cases fetch with
    | failure reason =>
        rw [show (Fetch.failure reason).block = [] from rfl, List.append_nil]
        exact ⟨rfl, used⟩
    | bytes block =>
        cases block with
        | nil =>
            rw [show (Fetch.bytes []).block = [] from rfl, List.append_nil]
            exact ⟨rfl, used.finish goesOn⟩
        | cons b rest => exact ⟨rfl, used.take goesOn (b :: rest)⟩

theorem behind
    (keeps : KeepsAccounts source handed reader)
    (length : Nat) :
    KeepsAccounts source (handed ++ reader.buffer.toList.take length) (reader.behind length) := by
  obtain ⟨count, here, accounts⟩ := keeps
  refine ⟨count, here, ?_⟩
  cases accounts with
  | running goesOn decoding held recorded =>
      exact .running goesOn decoding held (recorded.behind length)
  | finished ended recorded => exact .finished ended (recorded.behind length)

theorem invariant (source : Source) :
    Invariant (KeepsAccounts source) where
  fill keeps goesOn := keeps.fill goesOn
  behind keeps length := keeps.behind length

end KeepsAccounts

end Recording

end Reader

end NoticeScan
