import Mathlib
import NoticeScan.Proofs.LineIndex
import NoticeScan.Proofs.Window

/-!
# Requests that are interrupted

A fetch may fail at any time. The request that needed it is then answered with the failure, at
the place that had been reached, and hands out nothing. Since what has been decoded stays with the
reader, all other requests hand out the text of a source that returns the same blocks and never
fails.
-/

namespace NoticeScan

open NoticeScan.Text NoticeScan.Reader

/-! ## Sources that fail -/

/-- Whether a fetch has not failed. -/
def Fetch.succeeds : Fetch → Bool
  | .bytes _ => true
  | .failure _ => false

namespace Source

/-- The source that returns the same blocks and never fails. -/
def steady (source : Source) : Source :=
  { source with
    fetches := source.fetches.filter (·.succeeds)
    failing := none }

/-- What the next fetches yield. -/
def outcomes : Nat → Source → List Fetch
  | 0, _ => []
  | count + 1, source => source.fetch.1 :: outcomes count source.fetch.2

variable {source : Source}

/-- A source that never fails returns some blocks and then ends. -/
theorem exists_yields_steady (source : Source) :
    ∃ blocks, source.steady.Yields blocks := by
  have general : ∀ fetches : List Fetch, (∀ fetch ∈ fetches, fetch.succeeds = true) →
      ∃ blocks : List (List UInt8), (∀ block ∈ blocks, block ≠ []) ∧
        (fetches = blocks.map .bytes ∨
          ∃ later, fetches = blocks.map .bytes ++ .bytes [] :: later) := by
    intro fetches
    induction fetches with
    | nil => exact fun _ => ⟨[], fun block none => absurd none List.not_mem_nil, Or.inl rfl⟩
    | cons fetch rest inductionHypothesis =>
        intro succeed
        obtain ⟨blocks, nonempty, split⟩ := inductionHypothesis fun other member =>
          succeed other (List.mem_cons_of_mem fetch member)
        cases fetch with
        | failure reason => exact absurd (succeed _ List.mem_cons_self) Bool.false_ne_true
        | bytes block =>
            by_cases empty : block = []
            · refine ⟨[], fun other none => absurd none List.not_mem_nil, Or.inr ⟨rest, ?_⟩⟩
              rw [empty]
              rfl
            · refine ⟨block :: blocks, ?_, ?_⟩
              · intro other member
                rcases List.mem_cons.mp member with rfl | later
                · exact empty
                · exact nonempty other later
              · rcases split with rfl | ⟨later, rfl⟩
                · exact Or.inl rfl
                · exact Or.inr ⟨later, rfl⟩
  obtain ⟨blocks, nonempty, split⟩ := general source.steady.fetches fun fetch member =>
    (List.mem_filter.mp member).2
  refine ⟨blocks, nonempty, ?_⟩
  rcases split with whole | ended
  · exact Or.inl ⟨whole, rfl⟩
  · exact Or.inr ended

/-- A fetch that succeeds is one of the source that never fails. -/
theorem steady_fetch
    (made : Nat)
    (succeeds : source.fetch.1.succeeds = true) :
    ({ source.steady with reads := made } : Source).fetch =
      (source.fetch.1, { source.fetch.2.steady with reads := made + 1 }) := by
  revert succeeds
  rcases source with ⟨_ | ⟨_ | _, rest⟩, _ | _, reads, closes⟩
  · exact fun _ => rfl
  · exact fun fails => absurd fails Bool.false_ne_true
  · exact fun _ => rfl
  · exact fun _ => rfl
  · exact fun fails => absurd fails Bool.false_ne_true
  · exact fun fails => absurd fails Bool.false_ne_true

/-- A fetch that fails takes nothing from the source that never fails. -/
theorem steady_of_fails
    {reason : String}
    (fails : source.fetch.1 = .failure reason)
    (made : Nat) :
    ({ source.fetch.2.steady with reads := made } : Source) =
      { source.steady with reads := made } := by
  revert fails
  rcases source with ⟨_ | ⟨_ | _, rest⟩, _ | _, reads, closes⟩
  · exact fun succeeds => Fetch.noConfusion succeeds
  · exact fun _ => rfl
  · exact fun succeeds => Fetch.noConfusion succeeds
  · exact fun succeeds => Fetch.noConfusion succeeds
  · exact fun _ => rfl
  · exact fun _ => rfl

/-- A source that returns something gets shorter by it. -/
theorem fetch_shorter
    {block : List UInt8}
    (fetched : source.fetch.1 = .bytes block)
    (nonempty : block ≠ []) :
    source.fetch.2.fetches.length < source.fetches.length := by
  revert fetched
  rcases source with ⟨_ | ⟨head, rest⟩, _ | reason, reads, closes⟩
  · intro ended
    exact absurd (Fetch.bytes.inj ended).symm nonempty
  · exact fun fails => Fetch.noConfusion fails
  · exact fun _ => Nat.lt_succ_self _
  · exact fun _ => Nat.lt_succ_self _

end Source

namespace Reader

/-! ## One fetch from a source that may fail -/

variable {reader : Reader} {handed : List Char}

/-- The reader that would be there if its source had returned the same blocks without failing, in
some number of fetches. -/
def steadied (reader : Reader) (made : Nat) : Reader :=
  { reader with source := { reader.source.steady with reads := made } }

/-- What comes of one try to fetch: the source is given up, or it fails, or it returns a block. If
it does not fail, then the same comes of it at a source that never fails. -/
inductive Tried (reader : Reader) : Except Failure Unit → Reader → Prop
  | gaveUp {next : Reader} :
      next.ended = true →
      next.source = reader.source →
      (∀ made, (reader.steadied made).fill = (.ok (), next.steadied made)) →
      Tried reader (.ok ()) next
  | returned {next : Reader} (block : List UInt8) :
      reader.source.fetch.1 = .bytes block →
      next.source = reader.source.fetch.2 →
      (next.ended = true ∨ next.source.fetches.length < reader.source.fetches.length) →
      (∀ made, (reader.steadied made).fill = (.ok (), next.steadied (made + 1))) →
      Tried reader (.ok ()) next
  | failed (reason : String) :
      reader.source.fetch.1 = .failure reason →
      Tried reader (.error (reader.failureAt reason))
        { reader with source := reader.source.fetch.2 }

theorem fill_of_failure
    {reason : String}
    (goesOn : ¬ reader.linesDecoded < reader.strayCount)
    (fetched : reader.source.fetch.1 = .failure reason) :
    reader.fill =
      (.error (reader.failureAt reason), { reader with source := reader.source.fetch.2 }) := by
  rw [fill, if_neg goesOn]
  revert fetched
  rcases reader.source.fetch with ⟨fetch, source⟩
  rintro rfl
  rfl

theorem tried_fill (reader : Reader) :
    Tried reader reader.fill.1 reader.fill.2 := by
  by_cases overrun : reader.linesDecoded < reader.strayCount
  · rw [fill_of_overrun overrun]
    have overrunToo : ∀ made,
        (reader.steadied made).linesDecoded < (reader.steadied made).strayCount := fun _ => overrun
    exact .gaveUp rfl rfl fun made => fill_of_overrun (overrunToo made)
  · have goesOn : ∀ made,
        ¬ (reader.steadied made).linesDecoded < (reader.steadied made).strayCount :=
      fun _ => overrun
    cases fetched : reader.source.fetch.1 with
    | failure reason =>
        rw [fill_of_failure overrun fetched]
        exact .failed reason fetched
    | bytes block =>
        have alike : ∀ made, (reader.steadied made).source.fetch =
            (.bytes block, { reader.source.fetch.2.steady with reads := made + 1 }) := by
          intro made
          rw [← fetched]
          exact Source.steady_fetch made (congrArg Fetch.succeeds fetched)
        by_cases empty : block = []
        · subst empty
          rw [fill_of_nil overrun fetched]
          refine .returned [] fetched rfl (Or.inl rfl) fun made => ?_
          rw [fill_of_nil (goesOn made) (by rw [alike]), alike]
          rfl
        · rw [fill_of_block overrun fetched empty]
          refine .returned block fetched rfl (Or.inr (Source.fetch_shorter fetched empty))
            fun made => ?_
          rw [fill_of_block (goesOn made) (by rw [alike]) empty, alike]
          rfl

/-! ## Fetching until enough is there -/

/-- What comes of fetching as long as more is wanted, told without a bound. -/
inductive Fetches (wanted : Reader → Bool) : Reader → Except Failure Unit → Reader → Prop
  | enough {reader : Reader} :
      reader.ended = true ∨ wanted reader = false →
      Fetches wanted reader (.ok ()) reader
  | more {reader middle next : Reader} {result : Except Failure Unit} :
      reader.ended = false →
      reader.fill = (.ok (), middle) →
      Fetches wanted middle result next →
      Fetches wanted reader result next
  | failed {reader next : Reader} {failure : Failure} :
      reader.ended = false →
      reader.fill = (.error failure, next) →
      Fetches wanted reader (.error failure) next

theorem tried_of_fill
    {next : Reader} {result : Except Failure Unit}
    (filled : reader.fill = (result, next)) :
    Tried reader result next := by
  have tried := tried_fill reader
  rw [filled] at tried
  exact tried

theorem Tried.closer
    {next : Reader}
    (tried : Tried reader (.ok ()) next) :
    next.ended = true ∨ next.source.fetches.length < reader.source.fetches.length := by
  cases tried with
  | gaveUp ended _ _ => exact Or.inl ended
  | returned _ _ _ closer _ => exact closer

/-- The bound that a reader sets itself is never reached. -/
theorem fetches_fillWhile
    (wanted : Reader → Bool)
    (steps : Nat)
    {reader : Reader}
    (bound : reader.ended = true ∨ reader.source.fetches.length < steps) :
    Fetches wanted reader (fillWhile wanted steps reader).1 (fillWhile wanted steps reader).2 := by
  induction steps generalizing reader with
  | zero => exact .enough (Or.inl (bound.resolve_right (Nat.not_lt_zero _)))
  | succ steps inductionHypothesis =>
      by_cases done : (reader.ended || !wanted reader) = true
      · rw [fillWhile, if_pos done]
        exact .enough (by simpa using done)
      · simp only [Bool.not_eq_true, Bool.or_eq_false_iff] at done
        have within := bound.resolve_left (by simp [done.1])
        rw [fillWhile, done.1, done.2, Bool.or_self, if_neg Bool.false_ne_true]
        rcases filled : reader.fill with ⟨failure | _, middle⟩
        · exact .failed done.1 filled
        · refine .more done.1 filled (inductionHypothesis ?_)
          rcases (tried_of_fill filled).closer with ended | shorter
          · exact Or.inl ended
          · exact Or.inr (by omega)

section Fetching

variable {wanted : Reader → Bool} {next : Reader} {result : Except Failure Unit}

/-- Fetching fails just when one of the fetches does, with the reason of that fetch. -/
theorem Fetches.outcomes
    (fetches : Fetches wanted reader result next) :
    ∃ count, next.source.reads = reader.source.reads + count ∧
      ∀ reason, .failure reason ∈ reader.source.outcomes count ↔
        ∃ failure, result = .error failure ∧ failure.reason = reason := by
  induction fetches with
  | enough _ => exact ⟨0, rfl, fun reason => by simp [Source.outcomes]⟩
  | @more reader middle next result _ filled _ inductionHypothesis =>
      obtain ⟨count, reads, failures⟩ := inductionHypothesis
      cases tried_of_fill filled with
      | gaveUp _ same _ =>
          rw [same] at reads failures
          exact ⟨count, reads, failures⟩
      | returned block fetched same _ _ =>
          rw [same] at reads failures
          refine ⟨count + 1, ?_, fun reason => ?_⟩
          · rw [reads, Source.fetch_reads, Nat.add_assoc, Nat.add_comm 1]
          · rw [Source.outcomes, List.mem_cons, fetched, failures]
            simp
  | @failed reader next failure _ filled =>
      cases tried_of_fill filled with
      | failed reason fetched =>
          refine ⟨1, Source.fetch_reads reader.source, fun other => ?_⟩
          simp only [Source.outcomes, List.mem_singleton, fetched, Fetch.failure.injEq,
            Except.error.injEq, exists_eq_left']
          exact eq_comm

theorem SamePlace.failureAt
    {other : Reader}
    (same : SamePlace reader other)
    (reason : String) :
    other.failureAt reason = reader.failureAt reason := by
  rw [Reader.failureAt, Reader.failureAt, same.name, same.charsRead, same.lineStarts]

/-- The failure of a fetch is reported at the place that the reader had reached before. -/
theorem Fetches.failure_eq
    {failure : Failure}
    (fetches : Fetches wanted reader (.error failure) next) :
    failure = reader.failureAt failure.reason := by
  generalize outcome : (Except.error failure : Except Failure Unit) = result at fetches
  induction fetches with
  | enough _ => cases outcome
  | @more reader middle next result _ filled _ inductionHypothesis =>
      have same := fill_samePlace reader
      rw [filled] at same
      rw [inductionHypothesis outcome, same.failureAt]
      rfl
  | @failed reader next failure _ filled =>
      cases outcome
      cases tried_of_fill filled with
      | failed reason _ => rfl

/-- Unless a fetch fails, enough is there in the end, or the reading has ended. -/
theorem Fetches.satisfied
    (fetches : Fetches wanted reader (.ok ()) next) :
    next.ended = true ∨ wanted next = false := by
  generalize outcome : (Except.ok () : Except Failure Unit) = result at fetches
  induction fetches with
  | enough done => exact done
  | more _ _ _ inductionHypothesis => exact inductionHypothesis outcome
  | failed _ _ => cases outcome

/-- What is true of a reader and the text that it has handed out, and stays true whatever is
requested: each fetch keeps it, and so does handing out what has been decoded. -/
structure Invariant (Holds : List Char → Reader → Prop) : Prop where
  fill {handed : List Char} {reader : Reader} :
    Holds handed reader → reader.ended = false → Holds handed reader.fill.2
  behind {handed : List Char} {reader : Reader} :
    Holds handed reader → ∀ length,
      Holds (handed ++ reader.buffer.toList.take length) (reader.behind length)

theorem Invariant.fetches
    {Holds : List Char → Reader → Prop}
    (invariant : Invariant Holds)
    (holds : Holds handed reader)
    (fetches : Fetches wanted reader result next) :
    Holds handed next := by
  have step : ∀ {reader next : Reader} {result : Except Failure Unit}, Holds handed reader →
      reader.ended = false → reader.fill = (result, next) → Holds handed next := by
    intro reader next result holds running filled
    have filledNow := invariant.fill holds running
    rwa [filled] at filledNow
  induction fetches with
  | enough _ => exact holds
  | more running filled _ inductionHypothesis =>
      exact inductionHypothesis (step holds running filled)
  | failed running filled => exact step holds running filled

variable {blocks : List (List UInt8)} {count reads : Nat}

/-- A reader stands where it would stand if its source had not failed. -/
def StandsThough (blocks : List (List UInt8)) (count reads : Nat) (handed : List Char)
    (reader : Reader) : Prop :=
  ∃ made, Stands blocks count reads handed (reader.steadied made)

/-- A fetch that fails leaves the reader where it is, and any other fetch moves it on. -/
theorem StandsThough.fill
    (stop : IsStop blocks count)
    (stands : StandsThough blocks count reads handed reader)
    (running : reader.ended = false)
    (filled : reader.fill = (result, next)) :
    StandsThough blocks count reads handed next := by
  obtain ⟨made, stands⟩ := stands
  obtain ⟨-, standsNext, -⟩ := stands.fill stop running
  cases tried_of_fill filled with
  | gaveUp _ _ alike =>
      rw [alike] at standsNext
      exact ⟨made, standsNext⟩
  | returned _ _ _ _ alike =>
      rw [alike] at standsNext
      exact ⟨made + 1, standsNext⟩
  | failed reason fetched =>
      refine ⟨made, ?_⟩
      have unmoved : ({ reader with source := reader.source.fetch.2 } : Reader).steadied made =
          reader.steadied made := by
        rw [steadied, Source.steady_of_fails fetched]
        rfl
      rw [unmoved]
      exact stands

/-- Characters are taken from the front of what has been decoded. -/
theorem StandsThough.behind
    (stands : StandsThough blocks count reads handed reader)
    (length : Nat) :
    StandsThough blocks count reads (handed ++ reader.buffer.toList.take length)
      (reader.behind length) := by
  obtain ⟨made, stands⟩ := stands
  exact ⟨made, stands.behind length⟩

theorem StandsThough.invariant
    (stop : IsStop blocks count) :
    Invariant (StandsThough blocks count reads) where
  fill stands running := stands.fill stop running rfl
  behind stands length := stands.behind length

end Fetching

/-! ## Requests -/

section Requests

variable {blocks : List (List UInt8)} {count reads : Nat}

theorem Call.used_error
    (call : Call)
    (failure : Failure) :
    call.used (.error failure) = [] := by
  cases call <;> rfl

/-- What a request needs is fetched; then it is answered, unless a fetch has failed. -/
theorem Call.run_cases
    (call : Call)
    (reader : Reader) :
    ∃ next, SamePlace reader next ∧
      ((Fetches call.wants reader (.ok ()) next ∧
          call.run reader = (.ok (call.answer next), next.behind (call.length next))) ∨
        ∃ failure, Fetches call.wants reader (.error failure) next ∧
          call.run reader = (.error failure, next)) := by
  have same := fillWhile_samePlace call.wants reader.fetchBound reader
  have fetches := fetches_fillWhile call.wants reader.fetchBound
    (Or.inr (Nat.lt_succ_self reader.source.fetches.length))
  rw [call.run_eq]
  revert same fetches
  rcases fillWhile call.wants reader.fetchBound reader with ⟨failure | _, next⟩
  · exact fun same fetches => ⟨next, same, Or.inr ⟨failure, fetches, rfl⟩⟩
  · exact fun same fetches => ⟨next, same, Or.inl ⟨fetches, rfl⟩⟩

theorem Invariant.call
    {Holds : List Char → Reader → Prop}
    (invariant : Invariant Holds)
    (holds : Holds handed reader)
    (call : Call) :
    Holds (handed ++ call.used (call.run reader).1) (call.run reader).2 := by
  obtain ⟨next, -, ⟨fetches, run⟩ | ⟨failure, fetches, run⟩⟩ := call.run_cases reader
  · rw [run, call.used_answer]
    exact invariant.behind (invariant.fetches holds fetches) _
  · rw [run, call.used_error, List.append_nil]
    exact invariant.fetches holds fetches

theorem Invariant.runCalls
    {Holds : List Char → Reader → Prop}
    (invariant : Invariant Holds)
    (calls : List Call)
    {reader : Reader} {handed : List Char}
    (holds : Holds handed reader) :
    Holds (handed ++ handedOut calls reader) (runCalls calls reader).2 := by
  induction calls generalizing reader handed with
  | nil =>
      rw [handedOut, Reader.runCalls, List.zipWith_nil_left, List.flatten_nil, List.append_nil]
      exact holds
  | cons call rest inductionHypothesis =>
      have later := inductionHypothesis (invariant.call holds call)
      rw [List.append_assoc] at later
      exact later

/-- If a request for one more character gets none, the reading has ended and nothing is left. -/
theorem exists_exhausted
    (drained : (reader.read 1).1 = .ok #[]) :
    ∃ next, Fetches (lacks 1) reader (.ok ()) next ∧ next.ended = true ∧
      next.buffer.toList = [] ∧ (reader.read 1).2 = next.behind (next.portion 1) := by
  have answer : ((Call.read 1).run reader).1 = .ok (.text []) := by
    rw [Call.run]
    revert drained
    rcases reader.read 1 with ⟨result, next⟩
    rintro rfl
    rfl
  have same : ((Call.read 1).run reader).2 = (reader.read 1).2 := rfl
  obtain ⟨next, -, ⟨fetches, run⟩ | ⟨failure, fetches, run⟩⟩ := (Call.read 1).run_cases reader
  · rw [run, Except.ok.injEq, Call.answer, Answer.text.injEq, List.take_eq_nil_iff] at answer
    have empty : next.buffer.toList = [] := by
      rcases answer with nothing | empty
      · have positive : ¬ (1 : Int) < 0 := by decide
        rw [portion, if_neg positive] at nothing
        have size : next.buffer.toList.length = 0 := by
          rw [Array.length_toList]
          have one : (1 : Int).toNat = 1 := rfl
          omega
        exact List.length_eq_zero_iff.mp size
      · exact empty
    have lacking : (Call.read 1).wants next = true := by
      have size := congrArg List.length empty
      rw [Array.length_toList, List.length_nil] at size
      simp [Call.wants, lacks, size]
    have ended : next.ended = true := fetches.satisfied.resolve_right (by simp [lacking])
    rw [run] at same
    exact ⟨next, fetches, ended, empty, same.symm⟩
  · rw [run] at answer
    cases answer

/-- If a request for one more character gets none, all of the text has been handed out. -/
theorem StandsThough.eq_of_drained
    (stop : IsStop blocks count)
    (stands : StandsThough blocks count reads handed reader)
    (drained : (reader.read 1).1 = .ok #[]) :
    handed = wholeText (blocks.take count).flatten := by
  obtain ⟨next, fetches, ended, empty, -⟩ := exists_exhausted drained
  obtain ⟨made, standsNext⟩ := (StandsThough.invariant stop).fetches stands fetches
  have whole := standsNext.eq_of_ended ended
  have same : (next.steadied made).buffer = next.buffer := rfl
  rw [same, empty, List.append_nil] at whole
  exact whole

/-! ### Where a failure is reported -/

/-- A reader keeps its name, and its index is that of the text which it has handed out. -/
theorem Indexed.invariant
    (name : String) :
    Invariant fun handed reader => Indexed reader handed ∧ reader.name = name where
  fill := fun {_ reader} ⟨indexed, named⟩ _ =>
    ⟨indexed.of_samePlace (fill_samePlace reader), (fill_samePlace reader).name.trans named⟩
  behind := fun ⟨indexed, named⟩ length => ⟨indexed.behind length, named⟩

/-- A run of requests keeps the name and the index of its reader. -/
theorem Indexed.runCalls
    (calls : List Call)
    {reader : Reader} {handed : List Char}
    (indexed : Indexed reader handed) :
    Indexed (runCalls calls reader).2 (handed ++ handedOut calls reader) ∧
      (Reader.runCalls calls reader).2.name = reader.name :=
  (Indexed.invariant reader.name).runCalls calls ⟨indexed, rfl⟩

/-- A failure is reported in the last line that has been started, as far behind the start of that
line as text has been handed out. -/
theorem Indexed.failureAt
    (indexed : Indexed reader handed)
    (reason : String) :
    (reader.failureAt reason).line = reader.lineNumber reader.charsRead ∧
      ∃ start, reader.lineStarts[(reader.failureAt reason).line - 1]? = some start ∧
        start ≤ reader.charsRead ∧
        (reader.failureAt reason).column = reader.charsRead - start + 1 := by
  have size : reader.lineStarts.size = 1 + handed.count '\n' := by
    rw [← Array.length_toList, indexed.lineStarts, List.length_cons, length_startsFrom,
      Nat.add_comm]
  have line : (reader.failureAt reason).line = reader.lineStarts.size := rfl
  refine ⟨?_, ?_⟩
  · rw [line, size, indexed.lineNumber, lineIn, indexed.charsRead, List.take_length]
  · have inside : reader.lineStarts.size - 1 < reader.lineStarts.size := by omega
    have last : reader.lineStarts[reader.lineStarts.size - 1]? =
        some reader.lineStarts[reader.lineStarts.size - 1] :=
      Array.getElem?_eq_getElem inside
    rw [line, last]
    refine ⟨_, rfl, ?_, ?_⟩
    · have member : reader.lineStarts[reader.lineStarts.size - 1] ∈ reader.lineStarts.toList :=
        Array.getElem_mem_toList inside
      rw [indexed.lineStarts, startsFrom_eq, List.mem_cons, List.mem_map] at member
      rw [indexed.charsRead]
      rcases member with zero | ⟨place, placed, start⟩
      · omega
      · have within := List.mem_range.mp (List.mem_filter.mp placed).1
        omega
    · have column : (reader.failureAt reason).column =
          reader.charsRead - reader.lineStarts.back?.getD 0 + 1 := rfl
      rw [column, Array.back?, last]
      rfl

/-- The pieces that a run of requests adds to a list of its caller. -/
def collected (calls : List Call) (reader : Reader) : List (List Char) :=
  (runCalls calls reader).1.filterMap fun answer =>
    match answer with
    | .ok (.piece _ text) => some text
    | _ => none

theorem runCalls_append
    (first second : List Call)
    (reader : Reader) :
    runCalls (first ++ second) reader =
      ((runCalls first reader).1 ++ (runCalls second (runCalls first reader).2).1,
        (runCalls second (runCalls first reader).2).2) := by
  induction first generalizing reader with
  | nil => rfl
  | cons call rest inductionHypothesis =>
      have step : runCalls (call :: (rest ++ second)) reader =
          ((call.run reader).1 :: (runCalls (rest ++ second) (call.run reader).2).1,
            (runCalls (rest ++ second) (call.run reader).2).2) := rfl
      rw [List.cons_append, step, inductionHypothesis]
      rfl

/-- A request fails just when one of its fetches does, with the reason of that fetch. -/
theorem Call.failure_mem_iff
    (call : Call)
    (reader : Reader)
    (reason : String) :
    .failure reason ∈ reader.source.outcomes
        ((call.run reader).2.source.reads - reader.source.reads) ↔
      ∃ failure, (call.run reader).1 = .error failure ∧ failure.reason = reason := by
  obtain ⟨next, -, ⟨fetches, run⟩ | ⟨failure, fetches, run⟩⟩ := call.run_cases reader
  · obtain ⟨count, reads, failures⟩ := fetches.outcomes
    have unmoved : (next.behind (call.length next)).source = next.source := rfl
    rw [run, unmoved, reads, Nat.add_sub_cancel_left, failures]
    simp
  · obtain ⟨count, reads, failures⟩ := fetches.outcomes
    rw [run, reads, Nat.add_sub_cancel_left, failures]
    simp

/-- A request that fails reports the place of its reader and does not move it. -/
theorem Call.of_failed
    {call : Call} {failure : Failure}
    (failed : (call.run reader).1 = .error failure) :
    failure = reader.failureAt failure.reason ∧ SamePlace reader (call.run reader).2 := by
  obtain ⟨next, same, ⟨fetches, run⟩ | ⟨other, fetches, run⟩⟩ := call.run_cases reader
  · rw [run] at failed
    cases failed
  · rw [run] at failed ⊢
    cases failed
    exact ⟨fetches.failure_eq, same⟩

/-- A request that fails adds no piece. -/
theorem collected_of_failed
    (calls : List Call)
    (call : Call)
    {failure : Failure}
    (failed : (call.run (runCalls calls reader).2).1 = .error failure) :
    collected (calls ++ [call]) reader = collected calls reader := by
  have answers : (runCalls (calls ++ [call]) reader).1 =
      (runCalls calls reader).1 ++ [.error failure] := by
    rw [runCalls_append, ← failed]
    rfl
  rw [collected, answers, List.filterMap_append]
  exact List.append_nil _

/-- In every run of requests to a reader of a source that fails now and then, the request during
which it fails is answered with the failure, for the reason that the source gives and at the place
that has been reached, and leaves the index of the reader and the pieces that have been collected
as they were. What the other requests hand out is a front part of the text of the source that
returns the same blocks and never fails; once nothing more comes, it is all of it. -/
theorem runCalls_interrupted
    (name : String)
    (source : Source)
    (sizeHint : Int)
    (calls : List Call)
    (call : Call) :
    let reader : Reader := { name := name, source := source, sizeHint := sizeHint }
    let undisturbed : Reader := { name := name, source := source.steady, sizeHint := sizeHint }
    let now := (runCalls calls reader).2
    let next := (call.run now).2
    let fetched := now.source.outcomes (next.source.reads - now.source.reads)
    (∀ reason, .failure reason ∈ fetched ↔
      ∃ failure, (call.run now).1 = .error failure ∧ failure.reason = reason) ∧
    (∀ failure, (call.run now).1 = .error failure →
      failure.name = name ∧
      failure.offset = now.charsRead ∧
      failure.line = now.lineNumber now.charsRead ∧
      (∃ start, now.lineStarts[failure.line - 1]? = some start ∧ start ≤ now.charsRead ∧
        failure.column = now.charsRead - start + 1) ∧
      next.charsRead = now.charsRead ∧
      next.linesRead = now.linesRead ∧
      next.lineStarts = now.lineStarts ∧
      collected (calls ++ [call]) reader = collected calls reader) ∧
    ∃ text, (undisturbed.read (-1)).1 = .ok text ∧
      handedOut calls reader <+: text.toList ∧
      ((now.read 1).1 = .ok #[] → handedOut calls reader = text.toList) := by
  intro reader undisturbed now next fetched
  obtain ⟨indexed, sameName⟩ := (indexed_start name source sizeHint).runCalls calls
  refine ⟨call.failure_mem_iff now, ?_, ?_⟩
  · intro failure failed
    obtain ⟨reported, same⟩ := Call.of_failed failed
    obtain ⟨line, column⟩ := indexed.failureAt failure.reason
    rw [← reported] at line column
    exact ⟨(congrArg Failure.name reported).trans sameName, congrArg Failure.offset reported,
      line, column, same.charsRead, same.linesRead, same.lineStarts,
      collected_of_failed calls call failed⟩
  · obtain ⟨blocks, yields⟩ := source.exists_yields_steady
    obtain ⟨count, stop⟩ := exists_isStop blocks
    have start : Stands blocks count source.reads [] undisturbed :=
      stands_start yields name sizeHint
    have fresh : StandsThough blocks count source.reads [] reader := ⟨source.reads, start⟩
    have stands : StandsThough blocks count source.reads (handedOut calls reader) now :=
      (StandsThough.invariant stop).runCalls calls fresh
    refine ⟨_, start.read_all stop, ?_, stands.eq_of_drained stop⟩
    obtain ⟨made, standsNow⟩ := stands
    exact (List.prefix_append _ _).trans standsNow.isPrefix

/-- A fetch fails behind the first letter of a second line; the request for it is repeated. -/
theorem runCalls_interrupted_secondLine :
    let source : Source :=
      { fetches := [.bytes [0x61, 0x62, 0x0A, 0x63], .failure "timed out", .bytes [0x64]] }
    let reader : Reader := { name := "wire", source := source, sizeHint := 5 }
    let undisturbed : Reader := { name := "wire", source := source.steady, sizeHint := 5 }
    let calls : List Call := [.readDelimited ['\n'], .read 2, .read 2]
    (runCalls calls reader).1 =
        [.ok (.piece 3 ['a', 'b']),
          .error { name := "wire", line := 2, column := 1, offset := 3, reason := "timed out" },
          .ok (.text ['c', 'd'])] ∧
      ∃ text, (undisturbed.read (-1)).1 = .ok text ∧ handedOut calls reader = text.toList := by
  intro source reader undisturbed calls
  refine ⟨by decide +kernel, ?_⟩
  obtain ⟨-, -, text, whole, -, drained⟩ :=
    runCalls_interrupted "wire" source 5 calls (.read 1)
  exact ⟨text, whole, drained (by decide +kernel)⟩

end Requests

end Reader

end NoticeScan
