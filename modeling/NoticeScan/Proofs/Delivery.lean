import Mathlib
import NoticeScan.Proofs.Markup
import NoticeScan.Proofs.Utf8
import NoticeScan.Reader.Basic

/-!
# What a reader delivers

Bytes are decoded in blocks, quotes are replaced in pieces and the text is handed out in any
portions. `Shows` says what a whole string of bytes is shown as, and `IsStop` how many blocks of
a source are taken before it counts as binary. The main statement is that every run of calls
delivers, without loss, the text that the bytes of those blocks show, and takes no block more.
-/

namespace NoticeScan

open NoticeScan.Text NoticeScan.Reader

/-- A source that returns some blocks and then ends. What it would do later does not matter. -/
def Source.Yields (source : Source) (blocks : List (List UInt8)) : Prop :=
  (∀ block ∈ blocks, block ≠ []) ∧
    ((source.fetches = blocks.map .bytes ∧ source.failing = none) ∨
      ∃ later, source.fetches = blocks.map .bytes ++ .bytes [] :: later)

theorem Source.Yields.fetch_nil
    {source : Source}
    (yields : source.Yields []) :
    source.fetch.1 = .bytes [] := by
  rcases yields.2 with ⟨fetches, failing⟩ | ⟨later, fetches⟩
  · simp [Source.fetch, fetches, failing]
  · simp [Source.fetch, fetches]

theorem Source.Yields.fetch_cons
    {source : Source} {block : List UInt8} {rest : List (List UInt8)}
    (yields : source.Yields (block :: rest)) :
    source.fetch.1 = .bytes block ∧ block ≠ [] ∧ source.fetch.2.Yields rest ∧
      source.fetch.2.fetches.length < source.fetches.length := by
  obtain ⟨nonempty, fetches⟩ := yields
  have restNonempty : ∀ more ∈ rest, more ≠ [] := fun more member =>
    nonempty more (List.mem_cons_of_mem block member)
  rcases fetches with ⟨fetches, failing⟩ | ⟨later, fetches⟩
  · simp only [Source.fetch, fetches, List.map_cons]
    exact ⟨trivial, nonempty block List.mem_cons_self, ⟨restNonempty, Or.inl ⟨rfl, failing⟩⟩,
      Nat.lt_succ_self _⟩
  · simp only [Source.fetch, fetches, List.map_cons, List.cons_append]
    exact ⟨trivial, nonempty block List.mem_cons_self, ⟨restNonempty, Or.inr ⟨later, rfl⟩⟩,
      Nat.lt_succ_self _⟩

theorem Source.fetch_reads (source : Source) :
    source.fetch.2.reads = source.reads + 1 := by
  unfold Source.fetch
  split
  · rfl
  · split <;> rfl

namespace Reader

/-! ## The text of a string of bytes -/

/-- What a whole string of bytes is shown as: stray bytes are substituted, then quotes are
replaced. -/
def Shows (bytes : List UInt8) (text : List Char) : Prop :=
  ∃ glyphs, Utf8.Reads bytes glyphs ∧ Rewrites (glyphs.map shown) text

/-- The text that is handed out for a whole string of bytes. -/
def wholeText (bytes : List UInt8) : List Char :=
  (replaceQuotes (Utf8.decode bytes)).map shown

theorem shows_iff {bytes : List UInt8} {text : List Char} :
    Shows bytes text ↔ text = wholeText bytes := by
  constructor
  · rintro ⟨glyphs, reads, rewrites⟩
    rw [reads.unique (Utf8.reads_decode bytes)] at rewrites
    exact rewrites.unique (rewrites_replaceQuotes _)
  · rintro rfl
    exact ⟨_, Utf8.reads_decode bytes, rewrites_replaceQuotes _⟩

/-- The glyphs that are settled in a string of bytes that may go on. -/
def settled (bytes : List UInt8) : List Glyph :=
  (Utf8.feed none bytes).1

/-- The text that is handed out for a string of bytes that may go on. -/
def readyText (bytes : List UInt8) : List Char :=
  (replaceQuotes (released (settled bytes))).map shown

theorem settled_append (bytes more : List UInt8) :
    ∃ glyphs, settled (bytes ++ more) = settled bytes ++ glyphs :=
  ⟨_, congrArg Prod.fst (Utf8.feed_append none bytes more)⟩

theorem readyText_append (bytes more : List UInt8) :
    readyText bytes <+: readyText (bytes ++ more) := by
  obtain ⟨glyphs, append⟩ := settled_append bytes more
  rw [readyText, readyText, append, replaceQuotes_released_append, List.map_append]
  exact List.prefix_append _ _

theorem readyText_prefix_wholeText (bytes : List UInt8) :
    readyText bytes <+: wholeText bytes := by
  have decode : Utf8.decode bytes = settled bytes ++ Utf8.abandon (Utf8.feed none bytes).2 := rfl
  rw [readyText, wholeText, decode, replaceQuotes_append_last, List.map_append]
  exact List.prefix_append _ _

/-! ## Where binary data is given up -/

/-- More stray bytes than line feeds are settled in a string of bytes that may go on. -/
def Overrun (bytes : List UInt8) : Prop :=
  ∃ glyphs left, Utf8.Settles bytes glyphs left ∧
    glyphs.count (.char '\n') < glyphs.countP isStray

theorem overrun_iff (bytes : List UInt8) :
    Overrun bytes ↔
      (settled bytes).count (.char '\n') < (settled bytes).countP isStray := by
  have settles := (Utf8.settles_feed none bytes trivial).2
  rw [Utf8.pending, List.nil_append] at settles
  constructor
  · rintro ⟨glyphs, left, settlesToo, more⟩
    rw [(settles.unique settlesToo).1.symm] at more
    exact more
  · intro more
    exact ⟨_, _, settles, more⟩

/-- The number of blocks that are taken: up to the first one behind which stray bytes outnumber
line feeds, or all of them. -/
structure IsStop (blocks : List (List UInt8)) (count : Nat) : Prop where
  le : count ≤ blocks.length
  before : ∀ k < count, ¬ Overrun (blocks.take k).flatten
  here : count = blocks.length ∨ Overrun (blocks.take count).flatten

theorem exists_isStop (blocks : List (List UInt8)) :
    ∃ count, IsStop blocks count := by
  classical
  by_cases some : ∃ k, k ≤ blocks.length ∧ Overrun (blocks.take k).flatten
  · refine ⟨Nat.find some, (Nat.find_spec some).1, ?_, Or.inr (Nat.find_spec some).2⟩
    intro k earlier overrun
    exact Nat.find_min some earlier
      ⟨Nat.le_trans (Nat.le_of_lt earlier) (Nat.find_spec some).1, overrun⟩
  · refine ⟨blocks.length, Nat.le_refl _, ?_, Or.inl rfl⟩
    intro k earlier overrun
    exact some ⟨k, Nat.le_of_lt earlier, overrun⟩

theorem substitute_ne_lineFeed (b : UInt8) : substitute b ≠ '\n' := by
  have bound := b.toNat_lt
  rw [substitute]
  split_ifs with high blank star trademark copyright registered umlaut
  · intro lineFeed
    have toNat := congrArg Char.toNat lineFeed
    rw [Utf8.toNat_ofNat (Or.inl (by omega))] at toNat
    have ten : '\n'.toNat = 10 := rfl
    omega
  all_goals decide

theorem count_lineFeed (glyphs : List Glyph) :
    glyphs.countP (shown · == '\n') = glyphs.count (.char '\n') := by
  rw [List.count]
  congr 1
  funext glyph
  cases glyph with
  | char c => by_cases lineFeed : c = '\n' <;> simp [shown, lineFeed]
  | stray b => simp [shown, substitute_ne_lineFeed]

/-! ## What a reader stands for -/

/-- A reader has decoded some bytes, which may go on, and has handed out a text. -/
structure Follows (reader : Reader) (bytes : List UInt8) (handed : List Char) : Prop where
  running : reader.ended = false
  decoding : reader.decoding = (Utf8.feed none bytes).2
  held : reader.held = heldBack (settled bytes)
  text : handed ++ reader.buffer.toList = readyText bytes
  strays : reader.strayCount = (settled bytes).countP isStray
  lines : reader.linesDecoded = (settled bytes).countP (shown · == '\n')

/-- A reader has decoded some bytes to their end and has handed out a text. -/
structure Covers (reader : Reader) (bytes : List UInt8) (handed : List Char) : Prop where
  ended : reader.ended = true
  text : handed ++ reader.buffer.toList = wholeText bytes

variable {reader : Reader} {bytes : List UInt8} {handed : List Char}

/-- A reader gives up just when the bytes that it has decoded are overrun. -/
theorem Follows.gives_up_iff
    (follows : Follows reader bytes handed) :
    reader.linesDecoded < reader.strayCount ↔ Overrun bytes := by
  rw [overrun_iff, follows.strays, follows.lines, count_lineFeed]

theorem take_decoding (block : List UInt8) :
    (reader.take block).decoding = (Utf8.feed reader.decoding block).2 :=
  rfl

theorem take_held (block : List UInt8) :
    (reader.take block).held =
      (release reader.held (Utf8.feed reader.decoding block).1).2 :=
  rfl

theorem take_buffer (block : List UInt8) :
    (reader.take block).buffer = reader.buffer ++
      ((release reader.held (Utf8.feed reader.decoding block).1).1.map shown).toArray :=
  rfl

theorem take_strayCount (block : List UInt8) :
    (reader.take block).strayCount = reader.strayCount +
      (release reader.held (Utf8.feed reader.decoding block).1).1.countP isStray :=
  rfl

theorem take_linesDecoded (block : List UInt8) :
    (reader.take block).linesDecoded = reader.linesDecoded +
      (release reader.held (Utf8.feed reader.decoding block).1).1.countP (shown · == '\n') :=
  rfl

/-- What a piece releases has the stray bytes and the line feeds of the piece. -/
theorem countP_release
    {p : Glyph → Bool}
    (untouched : Untouched p)
    (glyphs piece : List Glyph) :
    (release (heldBack glyphs) piece).1.countP p = piece.countP p := by
  rw [release_eq, countP_released untouched, List.countP_append, countP_heldBack untouched,
    Nat.zero_add]

/-- A block is decoded behind the bytes before. -/
theorem Follows.take
    (follows : Follows reader bytes handed)
    (block : List UInt8) :
    Follows (reader.take block) (bytes ++ block) handed := by
  have feed := Utf8.feed_append none bytes block
  rw [← follows.decoding] at feed
  have glyphs : settled (bytes ++ block) =
      settled bytes ++ (Utf8.feed reader.decoding block).1 :=
    congrArg Prod.fst feed
  constructor
  · exact follows.running
  · rw [take_decoding, feed]
  · rw [take_held, follows.held, release_held, glyphs]
  · rw [take_buffer, follows.held, Array.toList_append, ← List.append_assoc, follows.text,
      readyText, readyText, glyphs, replaceQuotes_released_append, List.map_append]
  · rw [take_strayCount, follows.held, countP_release untouched_isStray, follows.strays, glyphs,
      List.countP_append]
  · rw [take_linesDecoded, follows.held, countP_release untouched_lineFeed, follows.lines, glyphs,
      List.countP_append]

theorem finish_buffer :
    reader.finish.buffer = reader.buffer ++
      (((release reader.held (Utf8.abandon reader.decoding)).1 ++
        (release reader.held (Utf8.abandon reader.decoding)).2).map shown).toArray :=
  rfl

/-- At the end, what is incomplete or held back is handed out as it is. -/
theorem Follows.finish
    (follows : Follows reader bytes handed) :
    Covers reader.finish bytes handed := by
  have decode : Utf8.decode bytes = settled bytes ++ Utf8.abandon reader.decoding := by
    rw [follows.decoding]
    rfl
  constructor
  · rfl
  · rw [finish_buffer, follows.held, Array.toList_append, ← List.append_assoc, follows.text,
      readyText, wholeText, decode, replaceQuotes_append_last]
    simp only [List.map_append]

/-! ## Fetching from a source that returns blocks -/

/-- A reader stands somewhere in a source that is stopped behind `count` blocks: `k` of them have
been taken, or all of them and the reading has ended. -/
inductive Stands (blocks : List (List UInt8)) (count reads : Nat) (handed : List Char)
    (reader : Reader) : Prop
  | running (k : Nat) :
      k ≤ count →
      Follows reader (blocks.take k).flatten handed →
      reader.source.Yields (blocks.drop k) →
      reader.source.reads = reads + k →
      Stands blocks count reads handed reader
  | finished :
      Covers reader (blocks.take count).flatten handed →
      (Overrun (blocks.take count).flatten → reader.source.reads = reads + count) →
      (¬ Overrun (blocks.take count).flatten → reader.source.reads = reads + count + 1) →
      Stands blocks count reads handed reader

/-! ## One fetch -/

theorem Follows.withSource
    (follows : Follows reader bytes handed)
    (source : Source) :
    Follows { reader with source := source } bytes handed :=
  ⟨follows.running, follows.decoding, follows.held, follows.text, follows.strays, follows.lines⟩

theorem fill_of_overrun
    (overrun : reader.linesDecoded < reader.strayCount) :
    reader.fill =
      (.ok (), { reader.finish with
        gaveUp := some (reader.strayCount, reader.linesDecoded) }) := by
  rw [fill, if_pos overrun]

theorem fill_of_nil
    (goesOn : ¬ reader.linesDecoded < reader.strayCount)
    (ended : reader.source.fetch.1 = .bytes []) :
    reader.fill = (.ok (), { reader with source := reader.source.fetch.2 }.finish) := by
  rw [fill, if_neg goesOn]
  revert ended
  rcases reader.source.fetch with ⟨fetch, source⟩
  rintro rfl
  rfl

theorem fill_of_block
    {block : List UInt8}
    (goesOn : ¬ reader.linesDecoded < reader.strayCount)
    (fetched : reader.source.fetch.1 = .bytes block)
    (nonempty : block ≠ []) :
    reader.fill = (.ok (), { reader with source := reader.source.fetch.2 }.take block) := by
  rw [fill, if_neg goesOn]
  revert fetched
  rcases reader.source.fetch with ⟨fetch, source⟩
  rintro rfl
  cases block with
  | nil => exact absurd rfl nonempty
  | cons b rest => rfl

section Stands

variable {blocks : List (List UInt8)} {count reads : Nat}

theorem take_succ_flatten
    {k : Nat} {block : List UInt8} {rest : List (List UInt8)}
    (split : blocks.drop k = block :: rest) :
    (blocks.take (k + 1)).flatten = (blocks.take k).flatten ++ block := by
  have taken : blocks.take (k + 1) = blocks.take k ++ [block] := by
    rw [List.take_add, split]
    rfl
  rw [taken, List.flatten_append, List.flatten_singleton]

/-- The stop lies at a block behind which the bytes are overrun, and at the end of the source. -/
theorem IsStop.eq_of_overrun
    {k : Nat}
    (stop : IsStop blocks count)
    (within : k ≤ count)
    (overrun : Overrun (blocks.take k).flatten) :
    k = count := by
  by_contra other
  exact stop.before k (by omega) overrun

theorem IsStop.eq_of_drop_nil
    {k : Nat}
    (stop : IsStop blocks count)
    (within : k ≤ count)
    (remaining : blocks.drop k = []) :
    k = count := by
  have bound := stop.le
  have length := congrArg List.length remaining
  rw [List.length_drop, List.length_nil] at length
  omega

theorem IsStop.lt_of_drop_cons
    {k : Nat} {block : List UInt8} {rest : List (List UInt8)}
    (stop : IsStop blocks count)
    (within : k ≤ count)
    (noOverrun : ¬ Overrun (blocks.take k).flatten)
    (remaining : blocks.drop k = block :: rest) :
    k < count := by
  rcases Nat.lt_or_ge k count with before | behind
  · exact before
  · have atStop : k = count := Nat.le_antisymm within behind
    have all := stop.here.resolve_right (atStop ▸ noOverrun)
    have length := congrArg List.length remaining
    rw [List.length_drop, List.length_cons] at length
    omega

/-- One fetch from a source that returns blocks does not fail, and leads closer to the stop. -/
theorem Stands.fill
    (stop : IsStop blocks count)
    (stands : Stands blocks count reads handed reader)
    (running : reader.ended = false) :
    reader.fill.1 = .ok () ∧ Stands blocks count reads handed reader.fill.2 ∧
      (reader.fill.2.ended = true ∨
        reader.fill.2.source.fetches.length < reader.source.fetches.length) := by
  cases stands with
  | finished covers =>
      rw [covers.ended] at running
      exact absurd running (by decide)
  | running k within follows yields fetched =>
      by_cases overrun : Overrun (blocks.take k).flatten
      · obtain rfl := stop.eq_of_overrun within overrun
        rw [fill_of_overrun (follows.gives_up_iff.2 overrun)]
        refine ⟨rfl, .finished ⟨rfl, follows.finish.text⟩ (fun _ => fetched) ?_, Or.inl rfl⟩
        exact fun noOverrun => absurd overrun noOverrun
      have goesOn : ¬ reader.linesDecoded < reader.strayCount := fun more =>
        overrun (follows.gives_up_iff.1 more)
      cases remaining : blocks.drop k with
      | nil =>
          obtain rfl := stop.eq_of_drop_nil within remaining
          rw [remaining] at yields
          rw [fill_of_nil goesOn yields.fetch_nil]
          have covers := (follows.withSource reader.source.fetch.2).finish
          refine ⟨rfl, .finished covers (fun isOverrun => absurd isOverrun overrun) ?_, Or.inl rfl⟩
          intro _
          change reader.source.fetch.2.reads = _
          rw [Source.fetch_reads, fetched]
      | cons block rest =>
          have before := stop.lt_of_drop_cons within overrun remaining
          have next : blocks.drop (k + 1) = rest := by
            rw [← List.drop_drop, remaining]
            rfl
          rw [remaining] at yields
          obtain ⟨fetch, nonempty, yieldsRest, shorter⟩ := yields.fetch_cons
          rw [fill_of_block goesOn fetch nonempty]
          refine ⟨rfl, .running (k + 1) before ?_ (next ▸ yieldsRest) ?_, Or.inr shorter⟩
          · rw [take_succ_flatten remaining]
            exact (follows.withSource reader.source.fetch.2).take block
          · change reader.source.fetch.2.reads = _
            rw [Source.fetch_reads, fetched, Nat.add_assoc]

/-- Fetching goes on until enough is there or the reading has ended. -/
theorem Stands.fillWhile
    (stop : IsStop blocks count)
    (wanted : Reader → Bool)
    {steps : Nat} {reader : Reader}
    (stands : Stands blocks count reads handed reader)
    (enough : reader.source.fetches.length < steps) :
    ∃ next, Reader.fillWhile wanted steps reader = (.ok (), next) ∧
      Stands blocks count reads handed next ∧
      (next.ended = true ∨ wanted next = false) := by
  induction steps generalizing reader with
  | zero =>
      exact absurd enough (Nat.not_lt_zero _)
  | succ steps inductionHypothesis =>
      by_cases done : (reader.ended || !wanted reader) = true
      · refine ⟨reader, ?_, stands, ?_⟩
        · rw [Reader.fillWhile, if_pos done]
        · simpa using done
      · have running : reader.ended = false := by
          cases ended : reader.ended with
          | false => rfl
          | true => exact absurd (by simp [ended]) done
        obtain ⟨noFailure, standsNext, closer⟩ := stands.fill stop running
        have step : Reader.fillWhile wanted (steps + 1) reader =
            Reader.fillWhile wanted steps reader.fill.2 := by
          rw [Reader.fillWhile, if_neg done]
          revert noFailure
          rcases reader.fill with ⟨result, next⟩
          rintro rfl
          rfl
        rw [step]
        rcases closer with ended | shorter
        · refine ⟨reader.fill.2, ?_, standsNext, Or.inl ended⟩
          cases steps with
          | zero => rfl
          | succ steps => rw [Reader.fillWhile, ended, Bool.true_or, if_pos rfl]
        · exact inductionHypothesis standsNext (by omega)

/-! ## Handing out -/

/-- A reader that has handed out its next characters, as many as given. -/
def behind (reader : Reader) (length : Nat) : Reader :=
  { reader with buffer := reader.buffer.extract length reader.buffer.size }.consume
    (reader.buffer.extract 0 length)

theorem behind_buffer (length : Nat) :
    (reader.behind length).buffer.toList = reader.buffer.toList.drop length := by
  change (reader.buffer.extract length reader.buffer.size).toList = _
  simp

/-- Characters are taken from the front of what has been decoded. -/
theorem Stands.behind
    (stands : Stands blocks count reads handed reader)
    (length : Nat) :
    Stands blocks count reads (handed ++ reader.buffer.toList.take length)
      (reader.behind length) := by
  have whole : handed ++ reader.buffer.toList.take length ++
      (reader.behind length).buffer.toList = handed ++ reader.buffer.toList := by
    rw [behind_buffer, List.append_assoc, List.take_append_drop]
  cases stands with
  | running k within follows yields fetched =>
      exact .running k within
        ⟨follows.running, follows.decoding, follows.held, whole.trans follows.text,
          follows.strays, follows.lines⟩
        yields fetched
  | finished covers overrun noOverrun =>
      exact .finished ⟨covers.ended, whole.trans covers.text⟩ overrun noOverrun

/-- All that has been decoded belongs to the text of the blocks that are taken. -/
theorem Stands.isPrefix
    (stands : Stands blocks count reads handed reader) :
    handed ++ reader.buffer.toList <+: wholeText (blocks.take count).flatten := by
  cases stands with
  | running k within follows _ _ =>
      rw [follows.text]
      have taken : (blocks.take count).take k = blocks.take k := by
        rw [List.take_take, Nat.min_eq_left within]
      have split : (blocks.take count).flatten =
          (blocks.take k).flatten ++ ((blocks.take count).drop k).flatten := by
        rw [← List.flatten_append, ← taken, List.take_append_drop]
      rw [split]
      exact (readyText_append _ _).trans (readyText_prefix_wholeText _)
  | finished covers _ _ =>
      rw [covers.text]

theorem Stands.eq_of_ended
    (stands : Stands blocks count reads handed reader)
    (ended : reader.ended = true) :
    handed ++ reader.buffer.toList = wholeText (blocks.take count).flatten := by
  cases stands with
  | running k _ follows _ _ =>
      rw [follows.running] at ended
      exact absurd ended (by decide)
  | finished covers _ _ =>
      exact covers.text

/-- When the buffer holds enough, or all there is, its front is what comes next in the text. -/
theorem Stands.take_buffer
    (stands : Stands blocks count reads handed reader)
    {size : Nat}
    (enough : reader.ended = true ∨ size ≤ reader.buffer.size) :
    reader.buffer.toList.take size =
      ((wholeText (blocks.take count).flatten).drop handed.length).take size := by
  rcases enough with ended | within
  · rw [← stands.eq_of_ended ended, List.drop_left]
  · obtain ⟨more, append⟩ := stands.isPrefix
    rw [← append, List.append_assoc, List.drop_left, List.take_append_of_le_length]
    rw [Array.length_toList]
    exact within

/-- The number of characters that a request gets from a reader that holds enough. -/
def portion (reader : Reader) (size : Int) : Nat :=
  if size < 0 then reader.buffer.size else min size.toNat reader.buffer.size

theorem read_eq
    {next : Reader} {size : Int}
    (filled : Reader.fillWhile (lacks size) reader.fetchBound reader = (.ok (), next)) :
    reader.read size =
      (.ok (next.buffer.extract 0 (next.portion size)), next.behind (next.portion size)) := by
  rw [read, filled]
  rfl

/-- A portion of some size is just the next characters of the text. -/
theorem Stands.read
    (stop : IsStop blocks count)
    (stands : Stands blocks count reads handed reader)
    (size : Int) :
    ∃ text next, reader.read size = (.ok text, next) ∧
      Stands blocks count reads (handed ++ text.toList) next ∧
      (0 ≤ size → text.toList =
        ((wholeText (blocks.take count).flatten).drop handed.length).take size.toNat) := by
  obtain ⟨next, filled, standsNext, enough⟩ :=
    stands.fillWhile stop (lacks size) (Nat.lt_succ_self reader.source.fetches.length)
  have front : (next.buffer.extract 0 (next.portion size)).toList =
      next.buffer.toList.take (next.portion size) := by
    simp
  refine ⟨_, _, read_eq filled, ?_, ?_⟩
  · rw [front]
    exact standsNext.behind _
  · intro nonnegative
    have positive : ¬ size < 0 := by omega
    have ready : next.ended = true ∨ size.toNat ≤ next.buffer.size := by
      rcases enough with ended | full
      · exact Or.inl ended
      · right
        simp only [lacks, Bool.or_eq_false_iff, decide_eq_false_iff_not] at full
        omega
    rw [front, portion, if_neg positive, ← standsNext.take_buffer ready]
    rw [← Array.length_toList, List.take_eq_take_iff]
    omega

theorem findFrom_eq_some
    {part text : List Char} {offset place : Nat}
    (found : findFrom part offset text = some place) :
    ∃ front back, text = front ++ part ++ back ∧ place = offset + front.length := by
  induction text generalizing offset with
  | nil =>
      rw [findFrom] at found
      split_ifs at found with empty
      refine ⟨[], [], ?_, (Option.some.inj found).symm⟩
      rw [List.isEmpty_iff.1 empty]
      rfl
  | cons c rest inductionHypothesis =>
      rw [findFrom] at found
      split_ifs at found with here
      · obtain ⟨back, append⟩ := List.isPrefixOf_iff_prefix.1 here
        exact ⟨[], back, append.symm, (Option.some.inj found).symm⟩
      · obtain ⟨front, back, rfl, rfl⟩ := inductionHypothesis found
        refine ⟨c :: front, back, rfl, ?_⟩
        rw [List.length_cons]
        omega

theorem behind_size :
    reader.behind reader.buffer.size =
      { reader with buffer := #[] }.consume reader.buffer := by
  simp [behind]

end Stands

/-! ## Runs of calls -/

/-- A request for the next part of the text. -/
inductive Call where
  | read (size : Int)
  | readDelimited (delimiter : List Char)

/-- What a request is answered with. -/
inductive Answer where
  | text (text : List Char)
  /-- A piece, with the number of characters used up. -/
  | piece (count : Nat) (text : List Char)
  | nothing
  deriving DecidableEq

/-- Makes a request. -/
def Call.run (call : Call) (reader : Reader) : Except Failure Answer × Reader :=
  match call with
  | .read size =>
      let (result, next) := reader.read size
      (result.map fun text => .text text.toList, next)
  | .readDelimited delimiter =>
      let (result, next) := reader.readDelimited delimiter
      (result.map fun piece? =>
        match piece? with
        | some (count, text) => .piece count text.toList
        | none => .nothing, next)

/-- The text that an answer hands out, with a delimiter that was used up put back. -/
def Call.used (call : Call) (answer : Except Failure Answer) : List Char :=
  match call, answer with
  | _, .ok (.text text) => text
  | .readDelimited delimiter, .ok (.piece count text) =>
      if text.length < count then text ++ delimiter else text
  | _, _ => []

/-- Makes requests one after the other. -/
def runCalls : List Call → Reader → List (Except Failure Answer) × Reader
  | [], reader => ([], reader)
  | call :: rest, reader =>
      let (answer, next) := call.run reader
      let (answers, last) := runCalls rest next
      (answer :: answers, last)

/-- The text that a run of requests hands out. -/
def handedOut (calls : List Call) (reader : Reader) : List Char :=
  (List.zipWith Call.used calls (runCalls calls reader).1).flatten

/-! ### A request is fetching and then handing out -/

/-- Whether more has to be fetched for a request. -/
def Call.wants : Call → Reader → Bool
  | .read size => lacks size
  | .readDelimited delimiter => fun reader => (reader.findInBuffer delimiter).isNone

/-- The number of characters that a request uses up when nothing more is fetched for it. -/
def Call.length : Call → Reader → Nat
  | .read size, reader => reader.portion size
  | .readDelimited delimiter, reader =>
      match reader.findInBuffer delimiter with
      | some place => place + delimiter.length
      | none => reader.buffer.size

/-- What a request is answered with when nothing more is fetched for it. -/
def Call.answer : Call → Reader → Answer
  | .read size, reader => .text (reader.buffer.toList.take (reader.portion size))
  | .readDelimited delimiter, reader =>
      match reader.findInBuffer delimiter with
      | some place => .piece (place + delimiter.length) (reader.buffer.toList.take place)
      | none =>
          if reader.buffer.isEmpty then .nothing
          else .piece reader.buffer.size reader.buffer.toList

theorem consume_nil (reader : Reader) :
    reader.consume #[] = reader := by
  simp [consume, lineStartsIn]

/-- Nothing is handed out of an empty buffer. -/
theorem behind_of_isEmpty
    (empty : reader.buffer.isEmpty = true) :
    reader.behind reader.buffer.size = reader := by
  have none : reader.buffer = #[] := Array.isEmpty_iff.mp empty
  rw [behind_size, none]
  refine (consume_nil _).trans ?_
  rw [← none]

/-- A request is answered from what is there once enough has been fetched. -/
theorem Call.run_eq
    (call : Call)
    (reader : Reader) :
    call.run reader =
      match Reader.fillWhile call.wants reader.fetchBound reader with
      | (.error failure, next) => (.error failure, next)
      | (.ok (), next) => (.ok (call.answer next), next.behind (call.length next)) := by
  cases call with
  | read size =>
      have wants : (Call.read size).wants = lacks size := rfl
      rw [wants, Call.run, Reader.read]
      rcases Reader.fillWhile (lacks size) reader.fetchBound reader with ⟨_ | _, next⟩
      · rfl
      · have taken : (next.buffer.extract 0 (next.portion size)).toList =
            next.buffer.toList.take (next.portion size) := by
          simp
        dsimp only
        rw [Call.answer, ← taken]
        rfl
  | readDelimited delimiter =>
      have wants : (Call.readDelimited delimiter).wants =
          fun state => (state.findInBuffer delimiter).isNone := rfl
      rw [wants, Call.run, Reader.readDelimited]
      dsimp only
      rcases Reader.fillWhile (fun state => (state.findInBuffer delimiter).isNone)
        reader.fetchBound reader with ⟨_ | _, next⟩
      · rfl
      · dsimp only
        rw [Call.answer, Call.length]
        cases next.findInBuffer delimiter with
        | some place =>
            have taken : (next.buffer.extract 0 place).toList = next.buffer.toList.take place := by
              simp
            dsimp only
            rw [← taken]
            rfl
        | none =>
            by_cases empty : next.buffer.isEmpty = true
            · dsimp only
              rw [if_pos empty, if_pos empty, behind_of_isEmpty empty]
              rfl
            · dsimp only
              rw [if_neg empty, if_neg empty, behind_size]
              rfl

/-- A request hands out just the characters that it uses up. -/
theorem Call.used_answer
    (call : Call)
    (reader : Reader) :
    call.used (.ok (call.answer reader)) = reader.buffer.toList.take (call.length reader) := by
  cases call with
  | read size => rfl
  | readDelimited delimiter =>
      rw [Call.answer, Call.length]
      cases found : reader.findInBuffer delimiter with
      | some place =>
          obtain ⟨front, back, buffer, rfl⟩ := findFrom_eq_some found
          dsimp only
          rw [Nat.zero_add, buffer, ← List.length_append, List.take_left, List.append_assoc,
            List.take_left]
          by_cases empty : delimiter = []
          · simp [Call.used, empty]
          · have positive := List.length_pos_of_ne_nil empty
            rw [Call.used, if_pos (by rw [List.length_append]; omega)]
      | none =>
          dsimp only
          have whole : reader.buffer.toList.take reader.buffer.size = reader.buffer.toList := by
            rw [← Array.length_toList, List.take_length]
          rw [whole]
          by_cases empty : reader.buffer.isEmpty = true
          · rw [if_pos empty, Array.isEmpty_iff.mp empty]
            rfl
          · rw [if_neg empty]
            simp [Call.used]

section Runs

variable {blocks : List (List UInt8)} {count reads : Nat}

/-- Every request is answered from where the reader stands, and moves it on by what it hands
out. -/
theorem Stands.call
    (stop : IsStop blocks count)
    (stands : Stands blocks count reads handed reader)
    (call : Call) :
    ∃ answer next, call.run reader = (.ok answer, next) ∧
      Stands blocks count reads (handed ++ call.used (.ok answer)) next := by
  obtain ⟨next, filled, standsNext, -⟩ :=
    stands.fillWhile stop call.wants (Nat.lt_succ_self reader.source.fetches.length)
  refine ⟨call.answer next, next.behind (call.length next), ?_, ?_⟩
  · rw [call.run_eq, fetchBound, filled]
  · rw [call.used_answer]
    exact standsNext.behind _

theorem Stands.runCalls
    (stop : IsStop blocks count)
    (calls : List Call)
    {reader : Reader} {handed : List Char}
    (stands : Stands blocks count reads handed reader) :
    (∀ answer ∈ (runCalls calls reader).1, ∃ value, answer = .ok value) ∧
      Stands blocks count reads (handed ++ handedOut calls reader)
        (Reader.runCalls calls reader).2 := by
  induction calls generalizing reader handed with
  | nil =>
      refine ⟨by simp [Reader.runCalls], ?_⟩
      simpa [handedOut, Reader.runCalls] using stands
  | cons call rest inductionHypothesis =>
      obtain ⟨answer, next, result, standsNext⟩ := stands.call stop call
      obtain ⟨answered, standsLast⟩ := inductionHypothesis standsNext
      have run : Reader.runCalls (call :: rest) reader =
          (.ok answer :: (Reader.runCalls rest next).1, (Reader.runCalls rest next).2) := by
        rw [Reader.runCalls, result]
      rw [handedOut, run]
      refine ⟨?_, ?_⟩
      · intro one member
        rcases List.mem_cons.1 member with rfl | later
        · exact ⟨answer, rfl⟩
        · exact answered one later
      · simpa [handedOut] using standsLast

theorem stands_start
    {source : Source}
    (yields : source.Yields blocks)
    (name : String) (sizeHint : Int) :
    Stands blocks count source.reads []
      { name := name, source := source, sizeHint := sizeHint } :=
  .running 0 (Nat.zero_le _) ⟨rfl, rfl, rfl, rfl, rfl, rfl⟩ yields rfl

end Runs

end Reader

end NoticeScan
