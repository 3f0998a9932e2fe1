import Mathlib
import NoticeScan.Proofs.Delivery

/-!
# The line index of a reader

A reader notes where lines start in what it has handed out. Looking an offset up among these
places counts the line feeds in front of it.
-/

namespace NoticeScan.Text

/-! ## Ranks in ascending arrays -/

section Ranks

variable {marks : Array Nat} {x : Nat}

/-- The entries before a place are at most `x`, and those from it on are greater. -/
structure Parts (marks : Array Nat) (x place : Nat) : Prop where
  le_size : place ≤ marks.size
  before : ∀ i (inside : i < marks.size), i < place → marks[i] ≤ x
  behind : ∀ i (inside : i < marks.size), place ≤ i → x < marks[i]

/-- Halving a stretch ends at the place that parts the entries. -/
theorem parts_rankIn
    (ascending : marks.toList.Pairwise (· ≤ ·))
    {steps low high : Nat}
    (enough : high - low ≤ steps)
    (ordered : low ≤ high)
    (high_le : high ≤ marks.size)
    (before : ∀ i (inside : i < marks.size), i < low → marks[i] ≤ x)
    (behind : ∀ i (inside : i < marks.size), high ≤ i → x < marks[i]) :
    Parts marks x (rankIn marks x steps low high) := by
  have monotone : ∀ i j (first : i < marks.size) (second : j < marks.size), i ≤ j →
      marks[i] ≤ marks[j] := by
    intro i j first second le
    rcases Nat.eq_or_lt_of_le le with rfl | less
    · exact Nat.le_refl _
    · have sorted := List.pairwise_iff_getElem.mp ascending i j (by simpa using first)
        (by simpa using second) less
      simpa using sorted
  induction steps generalizing low high with
  | zero =>
      have same : high = low := by omega
      subst same
      exact ⟨high_le, before, behind⟩
  | succ steps inductionHypothesis =>
      rw [rankIn]
      by_cases left : low < high
      · have inside : (low + high) / 2 < marks.size := by omega
        rw [if_pos left]
        dsimp only
        rw [Array.getD_eq_getD_getElem?, Array.getElem?_eq_getElem inside, Option.getD_some]
        by_cases small : marks[(low + high) / 2] ≤ x
        · rw [if_pos small]
          refine inductionHypothesis (by omega) (by omega) high_le ?_ behind
          intro i known below
          exact Nat.le_trans (monotone i _ known inside (by omega)) small
        · rw [if_neg small]
          refine inductionHypothesis (by omega) (by omega) (by omega) before ?_
          intro i known above
          exact Nat.lt_of_lt_of_le (Nat.lt_of_not_le small) (monotone _ i inside known above)
      · have same : high = low := by omega
        subst same
        rw [if_neg left]
        exact ⟨high_le, before, behind⟩

/-- The rank in an ascending array counts the entries that are at most as great. -/
theorem rank_eq_countP
    (ascending : marks.toList.Pairwise (· ≤ ·))
    (x : Nat) :
    rank marks x = marks.toList.countP (· ≤ x) := by
  have parts : Parts marks x (rank marks x) :=
    parts_rankIn ascending (Nat.sub_le _ _) (Nat.zero_le _) (Nat.le_refl _)
      (fun i _ below => absurd below (Nat.not_lt_zero i))
      (fun i inside above => absurd inside (Nat.not_lt.mpr above))
  generalize rank marks x = place at parts ⊢
  have front : (marks.toList.take place).countP (· ≤ x) = place := by
    have all : (marks.toList.take place).countP (· ≤ x) = (marks.toList.take place).length := by
      rw [List.countP_eq_length]
      intro mark member
      obtain ⟨i, inside, rfl⟩ := List.mem_iff_getElem.mp member
      rw [List.length_take, Array.length_toList] at inside
      rw [decide_eq_true_eq, List.getElem_take, Array.getElem_toList]
      exact parts.before i (by omega) (by omega)
    rw [all, List.length_take, Array.length_toList]
    exact Nat.min_eq_left parts.le_size
  have back : (marks.toList.drop place).countP (· ≤ x) = 0 := by
    rw [List.countP_eq_zero]
    intro mark member
    obtain ⟨i, inside, rfl⟩ := List.mem_iff_getElem.mp member
    rw [List.length_drop, Array.length_toList] at inside
    rw [decide_eq_true_eq, List.getElem_drop, Array.getElem_toList]
    exact Nat.not_le.mpr (parts.behind _ (by omega) (Nat.le_add_right _ _))
  rw [← List.take_append_drop place marks.toList, List.countP_append, front, back, Nat.add_zero]

end Ranks

end NoticeScan.Text

namespace NoticeScan.Reader

open NoticeScan.Text

/-! ## Where lines start -/

/-- The line of a text in which a character stands, counted from one. -/
def lineIn (text : List Char) (offset : Nat) : Nat :=
  1 + (text.take offset).count '\n'

theorem lineIn_add
    (text : List Char)
    (offset count : Nat) :
    lineIn text (count + offset) =
      lineIn text offset + ((text.drop offset).take count).count '\n' := by
  rw [lineIn, lineIn, Nat.add_comm count, List.take_add, List.count_append, Nat.add_assoc]

/-- Two offsets lie in the same line just when there is no line feed between them. -/
theorem lineIn_eq_iff
    (text : List Char)
    (offset count : Nat) :
    lineIn text offset = lineIn text (count + offset) ↔
      '\n' ∉ (text.drop offset).take count := by
  rw [lineIn_add, Nat.left_eq_add, List.count_eq_zero]

/-- The places behind the line feeds of a text that stands at an offset. -/
def startsFrom : Nat → List Char → List Nat
  | _, [] => []
  | offset, c :: rest =>
      if c = '\n' then (offset + 1) :: startsFrom (offset + 1) rest
      else startsFrom (offset + 1) rest

theorem startsFrom_append
    (offset : Nat)
    (first second : List Char) :
    startsFrom offset (first ++ second) =
      startsFrom offset first ++ startsFrom (offset + first.length) second := by
  induction first generalizing offset with
  | nil => rfl
  | cons c rest inductionHypothesis =>
      rw [List.cons_append, startsFrom, startsFrom, inductionHypothesis, List.length_cons,
        Nat.add_right_comm offset 1 rest.length, Nat.add_assoc offset rest.length 1]
      by_cases feed : c = '\n'
      · rw [if_pos feed, if_pos feed, List.cons_append]
      · rw [if_neg feed, if_neg feed]

theorem startsFrom_above
    (offset : Nat)
    (text : List Char) :
    ∀ start ∈ startsFrom offset text, offset < start := by
  induction text generalizing offset with
  | nil => exact fun start none => absurd none List.not_mem_nil
  | cons c rest inductionHypothesis =>
      intro start member
      rw [startsFrom] at member
      by_cases feed : c = '\n'
      · rw [if_pos feed] at member
        rcases List.mem_cons.mp member with rfl | later
        · exact Nat.lt_succ_self offset
        · exact Nat.lt_of_succ_lt (inductionHypothesis (offset + 1) start later)
      · rw [if_neg feed] at member
        exact Nat.lt_of_succ_lt (inductionHypothesis (offset + 1) start member)

theorem startsFrom_ascending
    (offset : Nat)
    (text : List Char) :
    (startsFrom offset text).Pairwise (· ≤ ·) := by
  induction text generalizing offset with
  | nil => exact .nil
  | cons c rest inductionHypothesis =>
      rw [startsFrom]
      by_cases feed : c = '\n'
      · rw [if_pos feed]
        refine .cons ?_ (inductionHypothesis (offset + 1))
        intro start later
        exact Nat.le_of_lt (startsFrom_above (offset + 1) rest start later)
      · rw [if_neg feed]
        exact inductionHypothesis (offset + 1)

/-- As many lines start up to a place as there are line feeds in front of it. -/
theorem countP_startsFrom
    (offset count : Nat)
    (text : List Char) :
    (startsFrom offset text).countP (· ≤ offset + count) = (text.take count).count '\n' := by
  induction text generalizing offset count with
  | nil => simp [startsFrom]
  | cons c rest inductionHypothesis =>
      cases count with
      | zero =>
          rw [List.take_zero, List.count_nil, List.countP_eq_zero]
          intro start member
          have above := startsFrom_above offset (c :: rest) start member
          simpa using above
      | succ count =>
          have further := inductionHypothesis (offset + 1) count
          rw [Nat.add_right_comm, Nat.add_assoc] at further
          rw [startsFrom, List.take_succ_cons, List.count_cons, ← further]
          by_cases feed : c = '\n'
          · have counted : offset + 1 ≤ offset + (count + 1) := by omega
            simp [feed, counted]
          · simp [feed]

theorem length_startsFrom
    (offset : Nat)
    (text : List Char) :
    (startsFrom offset text).length = text.count '\n' := by
  induction text generalizing offset with
  | nil => rfl
  | cons c rest inductionHypothesis =>
      rw [startsFrom, List.count_cons]
      by_cases feed : c = '\n'
      · rw [if_pos feed, if_pos (beq_iff_eq.mpr feed), List.length_cons, inductionHypothesis]
      · rw [if_neg feed, if_neg (by simpa using feed), inductionHypothesis]
        rfl

/-- One line starts behind each place at which a line feed stands. -/
theorem startsFrom_eq
    (offset : Nat)
    (text : List Char) :
    startsFrom offset text =
      ((List.range text.length).filter fun place => text[place]? = some '\n').map
        (offset + · + 1) := by
  induction text generalizing offset with
  | nil => rfl
  | cons c rest inductionHypothesis =>
      have later : ((List.range rest.length).map Nat.succ).filter
            (fun place => (c :: rest)[place]? = some '\n') =
          ((List.range rest.length).filter fun place => rest[place]? = some '\n').map
            Nat.succ := by
        rw [List.filter_map]
        congr 1
      rw [startsFrom, List.length_cons, List.range_succ_eq_map, List.filter_cons, later,
        inductionHypothesis]
      have shift : (offset + · + 1) ∘ Nat.succ = (offset + 1 + · + 1) := by
        funext place
        simp only [Function.comp_apply]
        omega
      by_cases feed : c = '\n'
      · simp [feed, shift]
      · simp [feed, shift]

theorem lineStartsIn_eq
    (offset : Nat)
    (text : Array Char) :
    lineStartsIn offset text = startsFrom offset text.toList := by
  have general : ∀ (chars : List Char) (place : Nat) (found : List Nat),
      (chars.foldl (fun state c =>
        (state.1 + 1, if c == '\n' then (state.1 + 1) :: state.2 else state.2))
        (place, found)).2.reverse = found.reverse ++ startsFrom place chars := by
    intro chars
    induction chars with
    | nil => simp [startsFrom]
    | cons c rest inductionHypothesis =>
        intro place found
        rw [List.foldl_cons, startsFrom]
        refine (inductionHypothesis _ _).trans ?_
        by_cases feed : c = '\n'
        · rw [if_pos feed, if_pos (beq_iff_eq.mpr feed), List.reverse_cons, List.append_assoc]
          rfl
        · rw [if_neg feed, if_neg (by simpa using feed)]
  rw [lineStartsIn, ← Array.foldl_toList]
  exact general text.toList offset []

/-! ## What a reader knows of lines -/

/-- The index of a reader is that of the text it has handed out. -/
structure Indexed (reader : Reader) (handed : List Char) : Prop where
  charsRead : reader.charsRead = handed.length
  linesRead : reader.linesRead = handed.count '\n'
  lineStarts : reader.lineStarts.toList = 0 :: startsFrom 0 handed

section Index

variable {reader next : Reader} {handed : List Char}

theorem indexed_start
    (name : String) (source : Source) (sizeHint : Int) :
    Indexed { name := name, source := source, sizeHint := sizeHint } [] :=
  ⟨rfl, rfl, rfl⟩

theorem Indexed.consume
    (indexed : Indexed reader handed)
    (text : Array Char) :
    Indexed (reader.consume text) (handed ++ text.toList) := by
  refine ⟨?_, ?_, ?_⟩
  · have added : (reader.consume text).charsRead = reader.charsRead + text.size := rfl
    rw [added, indexed.charsRead, List.length_append]
    rfl
  · have added : (reader.consume text).linesRead =
        reader.linesRead + (lineStartsIn reader.charsRead text).length := rfl
    rw [added, indexed.linesRead, lineStartsIn_eq, length_startsFrom, List.count_append]
  · have added : (reader.consume text).lineStarts.toList =
        reader.lineStarts.toList ++ lineStartsIn reader.charsRead text := by
      simp [Reader.consume]
    rw [added, indexed.lineStarts, lineStartsIn_eq, indexed.charsRead, startsFrom_append,
      Nat.zero_add, List.cons_append]

/-- Characters that are taken from the front of what has been decoded are indexed. -/
theorem Indexed.behind
    (indexed : Indexed reader handed)
    (length : Nat) :
    Indexed (reader.behind length) (handed ++ reader.buffer.toList.take length) := by
  have shortened : Indexed { reader with
      buffer := reader.buffer.extract length reader.buffer.size } handed :=
    ⟨indexed.charsRead, indexed.linesRead, indexed.lineStarts⟩
  have taken : (reader.buffer.extract 0 length).toList = reader.buffer.toList.take length := by
    simp
  rw [← taken]
  exact shortened.consume _

/-- What a reader says of where it stands: its name and its index. -/
structure SamePlace (reader next : Reader) : Prop where
  name : next.name = reader.name
  charsRead : next.charsRead = reader.charsRead
  linesRead : next.linesRead = reader.linesRead
  lineStarts : next.lineStarts = reader.lineStarts

theorem SamePlace.trans
    {last : Reader}
    (first : SamePlace reader next)
    (second : SamePlace next last) :
    SamePlace reader last :=
  ⟨second.name.trans first.name, second.charsRead.trans first.charsRead,
    second.linesRead.trans first.linesRead, second.lineStarts.trans first.lineStarts⟩

/-- Decoding more does not move a reader. -/
theorem fill_samePlace
    (reader : Reader) :
    SamePlace reader reader.fill.2 := by
  unfold fill
  split
  · exact ⟨rfl, rfl, rfl, rfl⟩
  · split <;> exact ⟨rfl, rfl, rfl, rfl⟩

theorem fillWhile_samePlace
    (wanted : Reader → Bool)
    (steps : Nat)
    (reader : Reader) :
    SamePlace reader (Reader.fillWhile wanted steps reader).2 := by
  induction steps generalizing reader with
  | zero => exact ⟨rfl, rfl, rfl, rfl⟩
  | succ steps inductionHypothesis =>
      have filled := fill_samePlace reader
      rw [Reader.fillWhile]
      split
      · exact ⟨rfl, rfl, rfl, rfl⟩
      · split
        · rename_i after outcome
          rw [outcome] at filled
          exact filled.trans (inductionHypothesis after)
        · rename_i failure after outcome
          rw [outcome] at filled
          exact filled

theorem Indexed.of_samePlace
    (indexed : Indexed reader handed)
    (same : SamePlace reader next) :
    Indexed next handed :=
  ⟨same.charsRead.trans indexed.charsRead, same.linesRead.trans indexed.linesRead,
    by rw [same.lineStarts]; exact indexed.lineStarts⟩

/-- What a request hands out is indexed; if it fails, nothing is handed out. -/
theorem Indexed.call
    (indexed : Indexed reader handed)
    (call : Call) :
    Indexed (call.run reader).2 (handed ++ call.used (call.run reader).1) := by
  have filled := indexed.of_samePlace (fillWhile_samePlace call.wants reader.fetchBound reader)
  rw [call.run_eq]
  revert filled
  rcases Reader.fillWhile call.wants reader.fetchBound reader with ⟨failure | _, next⟩
  · intro filled
    have nothing : call.used (.error failure) = [] := by
      cases call <;> rfl
    dsimp only
    rw [nothing, List.append_nil]
    exact filled
  · intro filled
    dsimp only
    rw [call.used_answer]
    exact filled.behind _

/-- The next characters are indexed as they are handed out. -/
theorem Indexed.read
    (indexed : Indexed reader handed)
    {size : Int}
    {text : Array Char}
    (result : reader.read size = (.ok text, next)) :
    Indexed next (handed ++ text.toList) := by
  have called := indexed.call (.read size)
  rw [Call.run, result] at called
  exact called

/-- The line of an offset is one more than the line feeds that have been handed out before it. -/
theorem Indexed.lineNumber
    (indexed : Indexed reader handed)
    (offset : Nat) :
    reader.lineNumber offset = lineIn handed offset := by
  rw [Reader.lineNumber, lineIn]
  by_cases positive : (0 : Int) < offset
  · have ascending : reader.lineStarts.toList.Pairwise (· ≤ ·) := by
      rw [indexed.lineStarts]
      exact .cons (fun start _ => Nat.zero_le start) (startsFrom_ascending 0 handed)
    have counted := countP_startsFrom 0 offset handed
    rw [Nat.zero_add] at counted
    rw [if_pos positive, Int.toNat_natCast, rank_eq_countP ascending, indexed.lineStarts,
      List.countP_cons_of_pos (by simp), counted, Nat.add_comm]
  · have zero : offset = 0 := by omega
    rw [if_neg positive, zero, List.take_zero, List.count_nil]

/-- A later character stands in no earlier line. -/
theorem Indexed.lineNumber_monotone
    (indexed : Indexed reader handed) :
    Monotone reader.lineNumber := by
  intro one other le
  by_cases positive : 0 < other
  · obtain ⟨place, rfl⟩ := Int.eq_ofNat_of_zero_le (Int.le_of_lt positive)
    rw [indexed.lineNumber, lineIn]
    rcases Int.le_total one 0 with before | inside
    · rw [Reader.lineNumber, if_neg (Int.not_lt.mpr before)]
      exact Nat.le_add_right 1 _
    · obtain ⟨first, rfl⟩ := Int.eq_ofNat_of_zero_le inside
      rw [indexed.lineNumber, lineIn]
      refine Nat.add_le_add_left (List.Sublist.count_le _ ?_) 1
      exact List.take_sublist_take_left (Int.ofNat_le.mp le)
  · have before : ¬ 0 < one := by omega
    rw [Reader.lineNumber, Reader.lineNumber, if_neg positive, if_neg before]

end Index

end NoticeScan.Reader
