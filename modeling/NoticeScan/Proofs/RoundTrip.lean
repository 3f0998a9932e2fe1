import Mathlib
import NoticeScan.Proofs.Encoded
import NoticeScan.Proofs.StrayBytes

/-!
# Texts come back from their bytes

The bytes of a text may be cut into blocks anywhere, also inside a character or a quote in markup.
A reader of them hands out the text with its quotes replaced: none of the bytes is stray, so the
source is read to its end. The text itself comes back just when there is no quote in it to replace.
-/

namespace NoticeScan

open NoticeScan.Text NoticeScan.Reader

/-! ## The blocks that are fetched -/

namespace Source.Yields

variable {source : Source} {blocks : List (List UInt8)}

/-- The first fetches return the first blocks. -/
theorem fetched
    (yields : source.Yields blocks)
    {count : Nat}
    (within : count ≤ blocks.length) :
    (source.fetched count).1 = (blocks.take count).flatten ∧
      (source.fetched count).2.Yields (blocks.drop count) := by
  induction count with
  | zero => exact ⟨rfl, yields⟩
  | succ count inductionHypothesis =>
      obtain ⟨bytes, behind⟩ := inductionHypothesis (Nat.le_of_succ_le within)
      have here := List.drop_eq_getElem_cons within
      rw [here] at behind
      obtain ⟨block, -, rest, -⟩ := behind.fetch_cons
      rw [Source.fetched_succ, block, bytes, take_succ_flatten here]
      exact ⟨rfl, rest⟩

/-- The fetch behind the last block returns nothing. -/
theorem fetched_all
    (yields : source.Yields blocks) :
    (source.fetched (blocks.length + 1)).1 = blocks.flatten := by
  obtain ⟨bytes, behind⟩ := yields.fetched (Nat.le_refl blocks.length)
  rw [List.drop_length] at behind
  rw [Source.fetched_succ, bytes, behind.fetch_nil, List.take_length]
  exact List.append_nil _

end Source.Yields

namespace Reader

/-! ## Texts without quotes in markup -/

theorem spelling_long :
    ∀ spelling ∈ markupQuotes, 1 < spelling.length := by
  decide

/-- A text that gets no shorter has no spelling of a quotation mark in it. -/
theorem Rewrites.no_spelling_of_length
    {text out : List Char}
    (rewrites : Rewrites text out)
    (same : out.length = text.length) :
    ∀ spelling ∈ markupQuotes, ¬ spelling <:+: text := by
  induction rewrites with
  | nil =>
      intro spelling member inside
      exact spelling_ne_nil member (List.infix_nil.mp inside)
  | @quote spelling rest out member rewrites _ =>
      have long := spelling_long spelling member
      have shorter := rewrites.length_le
      rw [List.length_cons, List.length_append] at same
      omega
  | keep noQuote _ inductionHypothesis =>
      intro spelling member inside
      rcases List.infix_cons_iff.mp inside with ahead | further
      · exact noQuote spelling member ahead
      · exact inductionHypothesis (Nat.succ.inj same) spelling member further

/-- A text is left as it is just when it has no spelling of a quotation mark in it. -/
theorem Rewrites.eq_self_iff
    {text out : List Char}
    (rewrites : Rewrites text out) :
    out = text ↔ ∀ spelling ∈ markupQuotes, ¬ spelling <:+: text := by
  constructor
  · intro same
    exact rewrites.no_spelling_of_length (congrArg List.length same)
  · intro noSpelling
    induction rewrites with
    | nil => rfl
    | quote member _ _ =>
        exact absurd (List.prefix_append _ _).isInfix (noSpelling _ member)
    | @keep c _ _ _ _ inductionHypothesis =>
        have further := inductionHypothesis fun spelling member inside =>
          noSpelling spelling member (inside.trans (List.suffix_cons c _).isInfix)
        rw [further]

/-! ## Nothing is stray and nothing is given up -/

variable {source : Source} {blocks : List (List UInt8)} {text handed : List Char}
  {reader : Reader}

theorem wholeText_rewrites
    (text : List Char) :
    Rewrites text (wholeText (Utf8.encode text)) := by
  have rewrites := rewrites_replaceQuotes (text.map .char)
  have shownChar : shown ∘ Glyph.char = id := rfl
  rw [List.map_map, shownChar, List.map_id] at rewrites
  rwa [wholeText, Utf8.decode_encode]

theorem countP_settled_encode
    {front : List UInt8}
    (starts : front <+: Utf8.encode text) :
    (settled front).countP isStray = 0 := by
  obtain ⟨back, whole⟩ := starts
  have settles := settled_prefix_decode front back
  rw [whole, Utf8.decode_encode] at settles
  rw [List.countP_eq_zero]
  intro glyph member
  obtain ⟨c, -, rfl⟩ := List.mem_map.mp (settles.subset member)
  exact Bool.false_ne_true

/-- A reader that has counted no stray byte has noted none. -/
theorem KeepsAccounts.firstStray_eq_none
    (keeps : KeepsAccounts source handed reader)
    (none : reader.strayCount = 0) :
    reader.firstStray = Option.none := by
  obtain ⟨_, _, accounts⟩ := keeps
  have recorded : ∃ glyphs, Recorded reader handed glyphs := by
    cases accounts with
    | running _ _ _ recorded => exact ⟨_, recorded⟩
    | finished _ recorded => exact ⟨_, recorded⟩
  obtain ⟨glyphs, recorded⟩ := recorded
  rw [recorded.strayCount, List.countP_eq_zero] at none
  rw [recorded.firstStray, List.findIdx?_eq_none_iff]
  exact fun glyph member => Bool.eq_false_iff.mpr (none glyph member)

/-- A source that is given up has yielded more stray bytes than lines. -/
def GivenUpRightly (reader : Reader) : Prop :=
  ∀ strays lines, reader.gaveUp = some (strays, lines) →
    lines < strays ∧ strays ≤ reader.strayCount

theorem givenUpRightly_invariant :
    Invariant fun _ reader => GivenUpRightly reader where
  fill {_ reader} rightly running := by
    have kept : ∀ next : Reader, next.gaveUp = reader.gaveUp →
        reader.strayCount ≤ next.strayCount → GivenUpRightly next := by
      intro next same more strays lines gaveUp
      obtain ⟨fewer, counted⟩ := rightly strays lines (same ▸ gaveUp)
      exact ⟨fewer, counted.trans more⟩
    rw [fill]
    split
    · rename_i overrun
      rintro strays lines ⟨⟩
      exact ⟨overrun, Nat.le_add_right _ _⟩
    · split
      · exact kept _ rfl (Nat.le_refl _)
      · exact kept _ rfl (Nat.le_add_right _ _)
      · exact kept _ rfl (Nat.le_add_right _ _)
  behind rightly _ := rightly

/-- A reader of the bytes of a text counts no stray byte; when it has ended, it has fetched all
blocks and seen the end of the source. -/
theorem Stands.encode
    (yields : source.Yields blocks)
    (whole : blocks.flatten = Utf8.encode text)
    (stands : Stands blocks blocks.length source.reads handed reader)
    (keeps : KeepsAccounts source handed reader) :
    reader.strayCount = 0 ∧
      (reader.ended = true → reader.source.reads = source.reads + blocks.length + 1) := by
  cases stands with
  | running count within follows _ _ =>
      refine ⟨?_, fun ended => absurd ended (Bool.eq_false_iff.mp follows.running)⟩
      have starts : (blocks.take count).flatten <+: Utf8.encode text := by
        rw [← whole]
        exact (List.take_prefix count blocks).flatten
      rw [follows.strays, countP_settled_encode starts]
  | finished covers _ noOverrun =>
      rw [List.take_length] at noOverrun
      rw [whole] at noOverrun
      have reads := noOverrun (not_overrun_encode (List.prefix_refl _))
      refine ⟨?_, fun _ => reads⟩
      obtain ⟨count, here, accounts⟩ := keeps
      have all : count = blocks.length + 1 := by
        rw [here, Source.fetched_reads] at reads
        omega
      rw [all, yields.fetched_all, whole] at accounts
      cases accounts with
      | running goesOn _ _ _ => exact absurd covers.ended (Bool.eq_false_iff.mp goesOn)
      | finished _ recorded =>
          rw [recorded.strayCount, Utf8.decode_encode, countP_replaceQuotes untouched_isStray,
            List.countP_eq_zero]
          intro glyph member
          obtain ⟨c, -, rfl⟩ := List.mem_map.mp member
          exact Bool.false_ne_true

/-- When a request for one more character gets none, the reading has ended and all of the text has
been handed out. -/
theorem Stands.of_drained
    {count reads : Nat} {done : Reader}
    (stop : IsStop blocks count)
    (stands : Stands blocks count reads handed reader)
    (drained : reader.read 1 = (.ok #[], done)) :
    done.ended = true ∧ handed = wholeText (blocks.take count).flatten := by
  obtain ⟨nothing, other, result, standsDone, -⟩ := stands.read stop 1
  rw [drained] at result
  cases result
  rw [show (#[] : Array Char).toList = [] from rfl, List.append_nil] at standsDone
  obtain ⟨next, -, ended, empty, left⟩ := exists_exhausted (congrArg Prod.fst drained)
  have same : done = next.behind (next.portion 1) := (congrArg Prod.snd drained).symm.trans left
  have endedDone : done.ended = true := (congrArg Reader.ended same).trans ended
  have nothingLeft : done.buffer.toList = [] := by
    rw [same, behind_buffer, empty, List.drop_nil]
  have all := standsDone.eq_of_ended endedDone
  rw [nothingLeft, List.append_nil] at all
  exact ⟨endedDone, all⟩

/-- Whatever is requested of a reader of the bytes of a text, no stray byte is counted or noted and
the source is not given up; when the reading has ended, it has seen the end of the source. -/
theorem runCalls_clean
    (yields : source.Yields blocks)
    (whole : blocks.flatten = Utf8.encode text)
    (name : String)
    (sizeHint : Int)
    (calls : List Call)
    {last : Reader}
    (reached : (runCalls calls
      { name := name, source := source, sizeHint := sizeHint }).2 = last) :
    (last.strayCount = 0 ∧ last.firstStray = none ∧ last.gaveUp = none) ∧
      (last.ended = true → last.source.reads = source.reads + blocks.length + 1) := by
  have stands := ((stands_start yields name sizeHint).runCalls (isStop_encode whole) calls).2
  have keeps := (KeepsAccounts.invariant source).runCalls calls (.start name source sizeHint)
  have fresh : GivenUpRightly { name := name, source := source, sizeHint := sizeHint } :=
    fun _ _ => nofun
  have rightly := @Invariant.runCalls _ givenUpRightly_invariant calls _ [] fresh
  rw [reached] at stands keeps rightly
  obtain ⟨noStrays, atEnd⟩ := stands.encode yields whole keeps
  refine ⟨⟨noStrays, keeps.firstStray_eq_none noStrays, ?_⟩, atEnd⟩
  cases gaveUp : last.gaveUp with
  | none => rfl
  | some counts =>
      obtain ⟨fewer, counted⟩ := rightly counts.1 counts.2 gaveUp
      omega

/-- The bytes of a text may be returned in any blocks, and its reader may be asked for any parts of
it: no request fails, no byte is counted or noted as stray, and the source is not given up. All
that the reader has left makes up, together with what it has handed out before, the text with its
quotes replaced; then it has fetched every block and seen the end of the source. That is the text
itself just when it holds none of the spellings of a quotation mark. -/
theorem runCalls_encode
    (yields : source.Yields blocks)
    (whole : blocks.flatten = Utf8.encode text)
    (name : String)
    (sizeHint : Int)
    (calls : List Call) :
    let reader : Reader := { name := name, source := source, sizeHint := sizeHint }
    let last := (runCalls calls reader).2
    ∃ out, (∀ other, Rewrites text other ↔ other = out) ∧
      (out = text ↔ ∀ spelling ∈ markupQuotes, ¬ spelling <:+: text) ∧
      (∀ answer ∈ (runCalls calls reader).1, ∃ value, answer = .ok value) ∧
      (last.strayCount = 0 ∧ last.firstStray = none ∧ last.gaveUp = none) ∧
      (∃ rest done, last.read (-1) = (.ok rest, done) ∧
        handedOut calls reader ++ rest.toList = out ∧
        (done.strayCount = 0 ∧ done.firstStray = none ∧ done.gaveUp = none) ∧
        done.source.reads = source.reads + blocks.length + 1) ∧
      ∀ done, last.read 1 = (.ok #[], done) →
        handedOut calls reader = out ∧
        done.source.reads = source.reads + blocks.length + 1 := by
  intro reader last
  have stop := isStop_encode whole
  have start : Stands blocks blocks.length source.reads [] reader :=
    stands_start yields name sizeHint
  obtain ⟨answered, stands⟩ := start.runCalls stop calls
  have behind : ∀ (size : Int), (runCalls (calls ++ [.read size]) reader).2 =
      (last.read size).2 := fun size => by
    rw [runCalls_append]
    rfl
  refine ⟨wholeText (Utf8.encode text), ?_, (wholeText_rewrites text).eq_self_iff, answered,
    (runCalls_clean yields whole name sizeHint calls rfl).1, ?_, ?_⟩
  · intro other
    refine ⟨fun rewrites => rewrites.unique (wholeText_rewrites text), ?_⟩
    rintro rfl
    exact wholeText_rewrites text
  · obtain ⟨rest, done, result, ended, delivered⟩ := stands.read_ends stop
    have reached : (runCalls (calls ++ [.read (-1)]) reader).2 = done := by
      rw [behind, result]
    obtain ⟨noStrays, atEnd⟩ :=
      runCalls_clean yields whole name sizeHint (calls ++ [.read (-1)]) reached
    rw [List.nil_append, List.take_length, whole] at delivered
    exact ⟨rest, done, result, delivered, noStrays, atEnd ended⟩
  · intro done drained
    have reached : (runCalls (calls ++ [.read 1]) reader).2 = done := by
      rw [behind, drained]
    obtain ⟨ended, delivered⟩ := stands.of_drained stop drained
    rw [List.nil_append, List.take_length, whole] at delivered
    exact ⟨delivered,
      (runCalls_clean yields whole name sizeHint (calls ++ [.read 1]) reached).2 ended⟩

/-- A letter of two bytes, a quote in markup and a sign of three bytes are cut by the blocks. -/
theorem runCalls_encode_cutSigns :
    let text := ['é', '&', 'q', 'u', 'o', 't', ';', '€']
    let blocks : List (List UInt8) :=
      [[0xC3], [0xA9, 0x26, 0x71], [0x75, 0x6F, 0x74, 0x3B, 0xE2], [0x82, 0xAC]]
    let source : Source := { fetches := blocks.map .bytes }
    let reader : Reader := { name := "cut", source := source, sizeHint := 11 }
    let calls : List Call := [.readDelimited ['"']]
    source.Yields blocks ∧ blocks.flatten = Utf8.encode text ∧
      (∀ other, Rewrites text other ↔ other = ['é', '"', '€']) ∧
      ¬ (∀ spelling ∈ markupQuotes, ¬ spelling <:+: text) ∧
      ∃ done, (runCalls calls reader).2.read (-1) = (.ok #['€'], done) ∧
        done.strayCount = 0 ∧ done.firstStray = none ∧ done.source.reads = 5 := by
  intro text blocks source reader calls
  have yields : source.Yields blocks := ⟨by decide, Or.inl ⟨rfl, rfl⟩⟩
  have whole : blocks.flatten = Utf8.encode text := by decide +kernel
  have result : ((runCalls calls reader).2.read (-1)).1 = .ok #['€'] := by decide +kernel
  have handed : handedOut calls reader = ['é', '"'] := by decide +kernel
  obtain ⟨out, rewrites, same, -, -, ⟨rest, done, read, delivered, strays, reads⟩, -⟩ :=
    runCalls_encode yields whole "cut" 11 calls
  rw [read] at result
  cases result
  rw [handed] at delivered
  subst delivered
  refine ⟨yields, whole, rewrites, ?_, done, read, strays.1, strays.2.1, reads⟩
  exact mt same.mpr (by decide)

end Reader

end NoticeScan
