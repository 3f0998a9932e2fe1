import Mathlib
import NoticeScan.Proofs.Interruptions

/-!
# Reading up to a delimiter splits a text

`Splits` says what the pieces of a text are between the occurrences of a delimiter, which are found
from left to right and do not overlap. A reader that is asked again and again for the text up to
the next delimiter hands out just these pieces: what it has decoded so far is a front part of the
text, and the first delimiter in a front part is the first one in the text.
-/

namespace NoticeScan

open NoticeScan.Text NoticeScan.Reader

/-- A source that returns blocks and then ends still does so when its failures are left out. -/
theorem Source.Yields.steady
    {source : Source} {blocks : List (List UInt8)}
    (yields : source.Yields blocks) :
    source.steady.Yields blocks := by
  have kept : (blocks.map Fetch.bytes).filter (·.succeeds) = blocks.map .bytes := by
    rw [List.filter_eq_self]
    intro fetch member
    obtain ⟨block, -, rfl⟩ := List.mem_map.mp member
    rfl
  refine ⟨yields.1, ?_⟩
  rcases yields.2 with ⟨fetches, -⟩ | ⟨later, fetches⟩
  · refine Or.inl ⟨?_, rfl⟩
    rw [Source.steady, fetches]
    exact kept
  · refine Or.inr ⟨later.filter (·.succeeds), ?_⟩
    rw [Source.steady, fetches, List.filter_append, kept]
    rfl

namespace Reader

/-- The pieces of a text between the occurrences of a delimiter, each of which is the first one
behind the delimiter before. -/
inductive Splits (delimiter : List Char) : List Char → List (List Char) → Prop
  | last {text : List Char} :
      ¬ delimiter <:+: text → Splits delimiter text [text]
  | cut {piece rest : List Char} {pieces : List (List Char)} :
      (∀ place < piece.length, ¬ delimiter <+: (piece ++ delimiter ++ rest).drop place) →
      Splits delimiter rest pieces →
      Splits delimiter (piece ++ delimiter ++ rest) (piece :: pieces)

/-- Pieces without the last one if that is empty. -/
def withoutEmptyEnd (pieces : List (List Char)) : List (List Char) :=
  if pieces.getLast? = some [] then pieces.dropLast else pieces

section Pieces

variable {delimiter text : List Char} {pieces : List (List Char)}

theorem Splits.ne_nil
    (splits : Splits delimiter text pieces) :
    pieces ≠ [] := by
  cases splits <;> exact List.cons_ne_nil _ _

/-- Where a delimiter first occurs is told by the text alone. -/
theorem eq_of_first
    {piece other rest more : List Char}
    (same : piece ++ delimiter ++ rest = other ++ delimiter ++ more)
    (first : ∀ place < piece.length, ¬ delimiter <+: (piece ++ delimiter ++ rest).drop place)
    (firstToo : ∀ place < other.length, ¬ delimiter <+: (other ++ delimiter ++ more).drop place) :
    piece = other ∧ rest = more := by
  have here : ∀ front back : List Char,
      delimiter <+: (front ++ delimiter ++ back).drop front.length := by
    intro front back
    rw [List.append_assoc, List.drop_left]
    exact List.prefix_append _ _
  have length : piece.length = other.length := by
    rcases Nat.lt_trichotomy piece.length other.length with shorter | equal | longer
    · exact absurd (same ▸ here piece rest) (firstToo piece.length shorter)
    · exact equal
    · exact absurd (same ▸ here other more) (first other.length longer)
  rw [List.append_assoc, List.append_assoc] at same
  obtain ⟨pieces, behind⟩ := List.append_inj same length
  exact ⟨pieces, List.append_cancel_left behind⟩

theorem Splits.unique
    {others : List (List Char)}
    (splits : Splits delimiter text pieces)
    (splitsToo : Splits delimiter text others) :
    pieces = others := by
  have inside : ∀ piece rest : List Char, delimiter <:+: piece ++ delimiter ++ rest :=
    fun piece rest => ⟨piece, rest, rfl⟩
  induction splits generalizing others with
  | last missing =>
      cases splitsToo with
      | last _ => rfl
      | cut _ _ => exact absurd (inside _ _) missing
  | @cut piece rest pieces first _ inductionHypothesis =>
      generalize whole : piece ++ delimiter ++ rest = text at splitsToo
      cases splitsToo with
      | last missing => exact absurd (whole ▸ inside piece rest) missing
      | cut firstToo splitsToo =>
          obtain ⟨rfl, rfl⟩ := eq_of_first whole first firstToo
          rw [inductionHypothesis splitsToo]

theorem withoutEmptyEnd_cons
    {piece : List Char}
    (some : pieces ≠ []) :
    withoutEmptyEnd (piece :: pieces) = piece :: withoutEmptyEnd pieces := by
  have last : (piece :: pieces).getLast? = pieces.getLast? :=
    List.getLast?_cons_of_ne_nil some
  rw [withoutEmptyEnd, withoutEmptyEnd, last, List.dropLast_cons_of_ne_nil some]
  split <;> rfl

theorem withoutEmptyEnd_last
    (some : text ≠ []) :
    withoutEmptyEnd [text] = [text] := by
  rw [withoutEmptyEnd, if_neg (by simpa using some)]

end Pieces

/-! ## Where a delimiter is found -/

section Finding

variable {part text : List Char} {offset place : Nat}

/-- No occurrence lies in front of the place that is found. -/
theorem findFrom_first
    (found : findFrom part offset text = some place) :
    ∀ before, offset + before < place → ¬ part <+: text.drop before := by
  induction text generalizing offset with
  | nil =>
      rw [findFrom] at found
      split_ifs at found
      cases found
      intro before less
      omega
  | cons c rest inductionHypothesis =>
      rw [findFrom] at found
      split_ifs at found with here
      · cases found
        intro before less
        omega
      · intro before less
        cases before with
        | zero => exact fun ahead => here (List.isPrefixOf_iff_prefix.mpr ahead)
        | succ before => exact inductionHypothesis found before (by omega)

/-- If nothing is found, there is no occurrence. -/
theorem not_infix_of_findFrom
    (missing : findFrom part offset text = none) :
    ¬ part <:+: text := by
  induction text generalizing offset with
  | nil =>
      rw [findFrom] at missing
      split_ifs at missing with empty
      rw [List.infix_nil]
      rintro rfl
      exact empty rfl
  | cons c rest inductionHypothesis =>
      rw [findFrom] at missing
      split_ifs at missing with here
      rw [List.infix_cons_iff]
      rintro (ahead | further)
      · exact here (List.isPrefixOf_iff_prefix.mpr ahead)
      · exact inductionHypothesis missing further

/-- The first occurrence in a front part of a text is the first one in the text. -/
theorem first_append
    {front back : List Char}
    (first : ∀ before < front.length, ¬ part <+: (front ++ part ++ back).drop before)
    (more : List Char) :
    ∀ before < front.length, ¬ part <+: (front ++ part ++ (back ++ more)).drop before := by
  intro before less ahead
  have within : before ≤ (front ++ part ++ back).length := by
    simp only [List.length_append]
    omega
  rw [← List.append_assoc, List.drop_append_of_le_length within] at ahead
  apply first before less
  apply List.prefix_of_prefix_length_le ahead (List.prefix_append _ _)
  simp only [List.length_drop, List.length_append]
  omega

/-- Every text is split in one way. -/
theorem exists_splits
    {delimiter : List Char}
    (nonempty : delimiter ≠ [])
    (text : List Char) :
    ∃ pieces, Splits delimiter text pieces := by
  induction length : text.length using Nat.strong_induction_on generalizing text with
  | _ bound inductionHypothesis =>
      cases found : findFrom delimiter 0 text with
      | none => exact ⟨[text], .last (not_infix_of_findFrom found)⟩
      | some place =>
          obtain ⟨front, back, rfl, rfl⟩ := findFrom_eq_some found
          have shorter : back.length < bound := by
            have some := List.length_pos_of_ne_nil nonempty
            simp only [List.length_append] at length
            omega
          obtain ⟨pieces, splits⟩ := inductionHypothesis back.length shorter back rfl
          have first : ∀ before < front.length,
              ¬ delimiter <+: (front ++ delimiter ++ back).drop before := fun before less =>
            findFrom_first found before (by omega)
          exact ⟨front :: pieces, .cut first splits⟩

end Finding

/-! ## One request -/

/-- What a request for the text up to the next delimiter is answered with, given the text that is
left, and what is left behind it. -/
inductive Cut (delimiter : List Char) : List Char → Except Failure Answer → List Char → Prop
  | failed {left : List Char} {failure : Failure} :
      Cut delimiter left (.error failure) left
  | piece {piece rest : List Char} :
      (∀ place < piece.length, ¬ delimiter <+: (piece ++ delimiter ++ rest).drop place) →
      Cut delimiter (piece ++ delimiter ++ rest)
        (.ok (.piece (piece.length + delimiter.length) piece)) rest
  | last {left : List Char} :
      left ≠ [] →
      ¬ delimiter <:+: left →
      Cut delimiter left (.ok (.piece left.length left)) []
  | nothing :
      Cut delimiter [] (.ok .nothing) []

section Requests

variable {blocks : List (List UInt8)} {count reads : Nat} {delimiter handed left : List Char}
  {reader : Reader}

/-- A request for the text up to the next delimiter takes off the front of what is left of the
text. -/
theorem StandsThough.cut
    (stop : IsStop blocks count)
    (stands : StandsThough blocks count reads handed reader)
    (all : handed ++ left = wholeText (blocks.take count).flatten)
    (delimiter : List Char) :
    let call := Call.readDelimited delimiter
    ∃ later, Cut delimiter left (call.run reader).1 later ∧
      handed ++ call.used (call.run reader).1 ++ later =
        wholeText (blocks.take count).flatten := by
  intro call
  obtain ⟨next, -, ⟨fetches, run⟩ | ⟨failure, fetches, run⟩⟩ := call.run_cases reader
  · obtain ⟨made, standsNext⟩ := (StandsThough.invariant stop).fetches stands fetches
    have buffer : (next.steadied made).buffer = next.buffer := rfl
    rw [run, call.used_answer, Call.answer, Call.length]
    cases found : next.findInBuffer delimiter with
    | some place =>
        obtain ⟨front, back, split, start⟩ := findFrom_eq_some found
        rw [Nat.zero_add] at start
        subst start
        have first : ∀ before < front.length,
            ¬ delimiter <+: (front ++ delimiter ++ back).drop before := by
          intro before less
          rw [← split]
          exact findFrom_first found before (by omega)
        obtain ⟨more, append⟩ := standsNext.isPrefix
        rw [buffer, ← all, List.append_assoc, List.append_cancel_left_eq, split] at append
        rw [← append, List.append_assoc (front ++ delimiter)] at all ⊢
        refine ⟨back ++ more, ?_, ?_⟩
        · have taken : next.buffer.toList.take front.length = front := by
            rw [split, List.append_assoc, List.take_left]
          dsimp only
          rw [taken]
          exact .piece (first_append first more)
        · dsimp only
          rw [split, ← List.length_append, List.take_left, ← all, List.append_assoc]
    | none =>
        have ended : next.ended = true :=
          fetches.satisfied.resolve_right (by simp [call, Call.wants, found])
        have whole := standsNext.eq_of_ended ended
        rw [buffer, ← all, List.append_cancel_left_eq] at whole
        have missing : ¬ delimiter <:+: left := whole ▸ not_infix_of_findFrom found
        have size : next.buffer.size = left.length := by
          rw [← Array.length_toList, whole]
        refine ⟨[], ?_, ?_⟩
        · by_cases empty : next.buffer.isEmpty = true
          · have nothing : left = [] := by
              rw [← whole, Array.isEmpty_iff.mp empty]
            dsimp only
            rw [if_pos empty, nothing]
            exact .nothing
          · dsimp only
            rw [if_neg empty, size, whole]
            refine .last ?_ missing
            rintro rfl
            exact empty (by simpa using whole)
        · dsimp only
          rw [size, whole, List.take_length, List.append_nil, all]
  · rw [run, call.used_error, List.append_nil]
    exact ⟨left, .failed, all⟩

/-- When nothing is left, the whole text has been handed out. -/
theorem StandsThough.of_nothing
    (stop : IsStop blocks count)
    (stands : StandsThough blocks count reads handed reader)
    (nothing : ((Call.readDelimited delimiter).run reader).1 = .ok .nothing) :
    handed = wholeText (blocks.take count).flatten := by
  obtain ⟨made, standsNow⟩ := stands
  obtain ⟨more, all⟩ := standsNow.isPrefix
  rw [List.append_assoc] at all
  obtain ⟨later, cut, -⟩ := StandsThough.cut stop ⟨made, standsNow⟩ all delimiter
  rw [nothing] at cut
  revert cut all
  generalize (reader.steadied made).buffer.toList ++ more = left
  intro all cut
  cases cut
  rw [← all, List.append_nil]

/-! ## Requests until nothing is left -/

/-- The numbers of characters that the pieces of a run of requests have used up. -/
def usedUp (calls : List Call) (reader : Reader) : List Nat :=
  (runCalls calls reader).1.filterMap fun answer =>
    match answer with
    | .ok (.piece count _) => some count
    | _ => none

theorem not_infix_nil
    (nonempty : delimiter ≠ []) :
    ¬ delimiter <:+: [] :=
  fun inside => nonempty (List.infix_nil.mp inside)

/-- As many requests as it takes until nothing is left collect the pieces of what was left. -/
theorem StandsThough.collects
    (stop : IsStop blocks count)
    (nonempty : delimiter ≠ [])
    (requests : Nat)
    (stands : StandsThough blocks count reads handed reader)
    (all : handed ++ left = wholeText (blocks.take count).flatten)
    (nothingLeft : ((Call.readDelimited delimiter).run
      (runCalls (List.replicate requests (.readDelimited delimiter)) reader).2).1 =
        .ok .nothing) :
    let calls := List.replicate requests (.readDelimited delimiter)
    ∃ pieces, Splits delimiter left pieces ∧
      collected calls reader = withoutEmptyEnd pieces ∧
      (usedUp calls reader).sum = left.length := by
  have emptySplits : Splits delimiter [] [[]] := .last (not_infix_nil nonempty)
  induction requests generalizing reader handed left with
  | zero =>
      obtain ⟨later, cut, -⟩ := stands.cut stop all delimiter
      have answer : ((Call.readDelimited delimiter).run reader).1 = .ok .nothing := nothingLeft
      rw [answer] at cut
      cases cut
      exact ⟨[[]], emptySplits, rfl, rfl⟩
  | succ requests inductionHypothesis =>
      obtain ⟨later, cut, allLater⟩ := stands.cut stop all delimiter
      obtain ⟨pieces, splits, pieceTexts, counts⟩ := inductionHypothesis
        ((StandsThough.invariant stop).call stands (.readDelimited delimiter)) allLater nothingLeft
      have answers : (runCalls (List.replicate (requests + 1) (.readDelimited delimiter)) reader).1 =
          ((Call.readDelimited delimiter).run reader).1 ::
            (runCalls (List.replicate requests (.readDelimited delimiter))
              ((Call.readDelimited delimiter).run reader).2).1 := rfl
      rw [collected] at pieceTexts
      rw [usedUp] at counts
      dsimp only
      rw [collected, usedUp, answers]
      revert cut
      generalize ((Call.readDelimited delimiter).run reader).1 = answer
      intro cut
      cases cut with
      | failed => exact ⟨pieces, splits, pieceTexts, counts⟩
      | @piece piece _ first =>
          refine ⟨piece :: pieces, .cut first splits, ?_, ?_⟩
          · rw [withoutEmptyEnd_cons splits.ne_nil, ← pieceTexts]
            rfl
          · rw [List.length_append, List.length_append, ← counts]
            rfl
      | last some missing =>
          obtain rfl := splits.unique emptySplits
          refine ⟨[left], .last missing, ?_, ?_⟩
          · rw [withoutEmptyEnd_last some]
            exact congrArg (left :: ·) pieceTexts
          · exact congrArg (left.length + ·) counts
      | nothing => exact ⟨pieces, splits, pieceTexts, counts⟩

/-- With a source that returns blocks and then ends, a point comes where nothing is left. -/
theorem Stands.exists_nothing
    (stop : IsStop blocks count)
    (nonempty : delimiter ≠ [])
    (stands : Stands blocks count reads handed reader)
    (standsThough : StandsThough blocks count reads handed reader)
    (all : handed ++ left = wholeText (blocks.take count).flatten) :
    ∃ requests,
      let calls := List.replicate requests (.readDelimited delimiter)
      (∀ answer ∈ (Reader.runCalls calls reader).1, ∃ value, answer = .ok value) ∧
      ((Call.readDelimited delimiter).run (Reader.runCalls calls reader).2).1 = .ok .nothing := by
  induction length : left.length using Nat.strong_induction_on generalizing reader handed left with
  | _ bound inductionHypothesis =>
      obtain ⟨answer, next, run, standsNext⟩ := stands.call stop (.readDelimited delimiter)
      obtain ⟨later, cut, allLater⟩ := standsThough.cut stop all delimiter
      have throughNext := (StandsThough.invariant stop).call standsThough (.readDelimited delimiter)
      rw [run] at cut allLater throughNext
      have further : later.length < left.length → ∃ requests,
          let calls := List.replicate requests (.readDelimited delimiter)
          (∀ one ∈ (Reader.runCalls calls reader).1, ∃ value, one = .ok value) ∧
          ((Call.readDelimited delimiter).run (Reader.runCalls calls reader).2).1 =
            .ok .nothing := by
        intro shorter
        obtain ⟨requests, answered, nothing⟩ := inductionHypothesis later.length
          (length ▸ shorter) standsNext throughNext allLater rfl
        have step : Reader.runCalls
            (List.replicate (requests + 1) (.readDelimited delimiter)) reader =
              (.ok answer :: (Reader.runCalls (List.replicate requests
                (.readDelimited delimiter)) next).1,
              (Reader.runCalls (List.replicate requests (.readDelimited delimiter)) next).2) := by
          rw [List.replicate_succ, Reader.runCalls, run]
        refine ⟨requests + 1, ?_, ?_⟩
        · rw [step]
          intro one member
          rcases List.mem_cons.mp member with rfl | later
          · exact ⟨answer, rfl⟩
          · exact answered one later
        · rw [step]
          exact nothing
      cases cut with
      | piece _ =>
          have some := List.length_pos_of_ne_nil nonempty
          exact further (by simp only [List.length_append]; omega)
      | last some _ => exact further (List.length_pos_of_ne_nil some)
      | nothing => exact ⟨0, fun one none => absurd none List.not_mem_nil, congrArg Prod.fst run⟩

/-! ## The pieces of a whole text -/

theorem run_eq_nothing_iff
    (reader : Reader)
    (delimiter : List Char) :
    ((Call.readDelimited delimiter).run reader).1 = .ok .nothing ↔
      (reader.readDelimited delimiter).1 = .ok none := by
  rw [Call.run]
  rcases reader.readDelimited delimiter with ⟨_ | _ | _, _⟩ <;> simp [Except.map]

/-- A reader is asked again and again for the text up to the next delimiter. When nothing is left,
the pieces that it has handed out are those of its whole text, which a source without failures
would deliver, between the occurrences of the delimiter; an empty last piece is not handed out. The
numbers of characters that it says to have used up are those of the whole text, delimiters
included. A source that returns blocks and then ends comes to that point without a failure. -/
theorem readDelimited_splits
    (name : String)
    (source : Source)
    (sizeHint : Int)
    (nonempty : delimiter ≠ []) :
    let reader : Reader := { name := name, source := source, sizeHint := sizeHint }
    let undisturbed : Reader := { name := name, source := source.steady, sizeHint := sizeHint }
    let calls (requests : Nat) := List.replicate requests (Call.readDelimited delimiter)
    let last (requests : Nat) := (runCalls (calls requests) reader).2
    ∃ text pieces, (undisturbed.read (-1)).1 = .ok text ∧
      (∀ other, Splits delimiter text.toList other ↔ other = pieces) ∧
      (∀ requests, ((last requests).readDelimited delimiter).1 = .ok none →
        collected (calls requests) reader = withoutEmptyEnd pieces ∧
        (usedUp (calls requests) reader).sum = text.size ∧
        (last requests).charsRead = text.size) ∧
      ∀ blocks, source.Yields blocks →
        (reader.read (-1)).1 = .ok text ∧
        ∃ requests,
          (∀ answer ∈ (runCalls (calls requests) reader).1, ∃ value, answer = .ok value) ∧
          ((last requests).readDelimited delimiter).1 = .ok none := by
  intro reader undisturbed calls last
  obtain ⟨blocks, yields⟩ := source.exists_yields_steady
  obtain ⟨count, stop⟩ := exists_isStop blocks
  have start : Stands blocks count source.reads [] undisturbed :=
    stands_start yields name sizeHint
  have fresh : StandsThough blocks count source.reads [] reader := ⟨source.reads, start⟩
  have whole : (undisturbed.read (-1)).1 = .ok (wholeText (blocks.take count).flatten).toArray :=
    start.read_all stop
  obtain ⟨pieces, splits⟩ := exists_splits nonempty (wholeText (blocks.take count).flatten)
  refine ⟨_, pieces, whole, ?_, ?_, ?_⟩
  · intro other
    refine ⟨fun splitsToo => splitsToo.unique splits, ?_⟩
    rintro rfl
    exact splits
  · intro requests nothingLeft
    rw [← run_eq_nothing_iff] at nothingLeft
    obtain ⟨others, splitsToo, pieceTexts, counts⟩ :=
      fresh.collects stop nonempty requests rfl nothingLeft
    obtain rfl := splitsToo.unique splits
    have indexed := ((indexed_start name source sizeHint).runCalls (calls requests)).1
    have handed := ((StandsThough.invariant stop).runCalls (calls requests) fresh).of_nothing
      stop nothingLeft
    refine ⟨pieceTexts, counts, ?_⟩
    rw [indexed.charsRead, handed]
    rfl
  · intro returned returns
    obtain ⟨stopping, stopToo⟩ := exists_isStop returned
    have startToo : Stands returned stopping source.reads [] reader :=
      stands_start returns name sizeHint
    have steady : Stands returned stopping source.reads [] undisturbed :=
      stands_start returns.steady name sizeHint
    have same := (steady.read_all stopToo).symm.trans whole
    obtain ⟨requests, answered, nothing⟩ := startToo.exists_nothing stopToo nonempty
      ⟨source.reads, steady⟩ rfl
    exact ⟨(startToo.read_all stopToo).trans same, requests, answered,
      (run_eq_nothing_iff _ delimiter).mp nothing⟩

/-- The delimiter overlaps itself, is cut by the blocks, and ends the text with a sign that is held
back to the end; the second fetch fails. -/
theorem readDelimited_splits_overlapping :
    let delimiter := ['&', '&']
    let source : Source :=
      { fetches :=
          [.bytes [0x61, 0x26], .failure "busy", .bytes [0x26, 0x26, 0x62], .bytes [0x26, 0x26]] }
    let reader : Reader := { name := "pieces", source := source, sizeHint := 7 }
    let undisturbed : Reader := { name := "pieces", source := source.steady, sizeHint := 7 }
    let calls := List.replicate 3 (Call.readDelimited delimiter)
    delimiter ≠ [] ∧
      ((runCalls calls reader).2.readDelimited delimiter).1 = .ok none ∧
      collected calls reader = [['a'], ['&', 'b']] ∧
      ∃ text pieces, (undisturbed.read (-1)).1 = .ok text ∧
        text.toList = ['a', '&', '&', '&', 'b', '&', '&'] ∧
        (∀ other, Splits delimiter text.toList other ↔ other = pieces) ∧
        withoutEmptyEnd pieces = [['a'], ['&', 'b']] ∧
        (usedUp calls reader).sum = 7 := by
  intro delimiter source reader undisturbed calls
  have nonempty : delimiter ≠ [] := by decide
  have nothingLeft : ((runCalls calls reader).2.readDelimited delimiter).1 = .ok none := by
    decide +kernel
  have texts : collected calls reader = [['a'], ['&', 'b']] := by decide +kernel
  have read : (undisturbed.read (-1)).1 = .ok #['a', '&', '&', '&', 'b', '&', '&'] := by
    decide +kernel
  obtain ⟨text, pieces, whole, splits, drained, -⟩ :=
    readDelimited_splits "pieces" source 7 nonempty
  obtain rfl : #['a', '&', '&', '&', 'b', '&', '&'] = text :=
    Except.ok.inj (read.symm.trans whole)
  obtain ⟨collects, counts, -⟩ := drained 3 nothingLeft
  exact ⟨nonempty, nothingLeft, texts, _, pieces, whole, rfl, splits, collects.symm.trans texts,
    counts⟩

end Requests

end Reader

end NoticeScan
