import Mathlib
import NoticeScan.Regex.Matching

/-!
# The ways of an expression

Which stretches of a text an expression can take, and which groups are passed meanwhile, said
without the search that looks for them. What a condition on the text around, an atomic group or a
reference to a group rules out is left open here: every way that may be taken is allowed for.
-/

namespace NoticeScan.Regex

/-- A group that has been passed, with the span that it has captured. -/
structure Pass where
  group : Nat
  start : Nat
  stop : Nat
  deriving Repr, DecidableEq

/-- Ways from one position to another, with the groups that are passed, in the order in which
they end. -/
abbrev Ways := Nat → Nat → List Pass → Prop

namespace Ways

/-- The way that stays where it is. -/
def stay : Ways := fun start stop passes =>
  stop = start ∧ passes = []

/-- One way and then another. -/
def andThen (first second : Ways) : Ways := fun start stop passes =>
  ∃ middle before after,
    first start middle before ∧ second middle stop after ∧ passes = before ++ after

/-- Either of two kinds of ways. -/
def either (first second : Ways) : Ways := fun start stop passes =>
  first start stop passes ∨ second start stop passes

/-- A number of ways of one kind. -/
def times : Nat → Ways → Ways
  | 0, _ => stay
  | count + 1, ways => ways.andThen (times count ways)

/-- Ways of one kind, as many as the bounds of a repeat allow. The bound above cannot forbid what
the one below asks for. -/
def between (low : Nat) (high : Option Nat) (ways : Ways) : Ways := fun start stop passes =>
  ∃ count, low ≤ count ∧ (∀ most ∈ high, count ≤ max low most) ∧
    times count ways start stop passes

/-- A way that ends in passing a group. -/
def inGroup (index : Nat) (ways : Ways) : Ways := fun start stop passes =>
  ∃ inner, ways start stop inner ∧ passes = inner ++ [⟨index, start, stop⟩]

/-- One character that passes a test. -/
def oneOf (text : Array Char) (test : CharTest) : Ways := fun start stop passes =>
  (∃ c, text[start]? = some c ∧ test.passes c = true) ∧ stop = start + 1 ∧ passes = []

end Ways

/-- The ways of an expression in a text. -/
def Node.ways (text : Array Char) : Node → Ways
  | .empty => .stay
  | .never => fun _ _ _ => False
  | .char test => .oneOf text test
  | .anchor place => fun start stop passes =>
      place.holds text start = true ∧ stop = start ∧ passes = []
  | .seq first second => (first.ways text).andThen (second.ways text)
  | .alt first second => (first.ways text).either (second.ways text)
  | .group index body => (body.ways text).inGroup index
  | .again _ _ => fun start stop passes => start ≤ stop ∧ passes = []
  | .look behind negated body => fun start stop passes =>
      stop = start ∧
        if negated then passes = []
        else ∃ seen, body.ways text (start - behind.getD 0) seen passes
  | .atomic body => body.ways text
  | .repeated _ low high body => (body.ways text).between low high
  | .branch _ yes no => (yes.ways text).either (no.ways text)

namespace Ways

theorem stay_andThen
    (ways : Ways) :
    stay.andThen ways = ways := by
  funext start stop passes
  apply propext
  constructor
  · rintro ⟨middle, before, after, ⟨rfl, rfl⟩, second, rfl⟩
    exact second
  · intro second
    exact ⟨start, [], passes, ⟨rfl, rfl⟩, second, rfl⟩

theorem andThen_stay
    (ways : Ways) :
    ways.andThen stay = ways := by
  funext start stop passes
  apply propext
  constructor
  · rintro ⟨middle, before, after, first, ⟨rfl, rfl⟩, rfl⟩
    simpa using first
  · intro first
    exact ⟨stop, passes, [], first, ⟨rfl, rfl⟩, by simp⟩

theorem andThen_assoc
    (first second third : Ways) :
    (first.andThen second).andThen third = first.andThen (second.andThen third) := by
  funext start stop passes
  apply propext
  constructor
  · rintro ⟨later, _, last, ⟨sooner, before, after, one, two, rfl⟩, three, rfl⟩
    exact ⟨sooner, before, after ++ last, one, ⟨later, after, last, two, three, rfl⟩,
      List.append_assoc _ _ _⟩
  · rintro ⟨sooner, before, _, one, ⟨later, after, last, two, three, rfl⟩, rfl⟩
    exact ⟨later, before ++ after, last, ⟨sooner, before, after, one, two, rfl⟩, three,
      (List.append_assoc _ _ _).symm⟩

theorem times_add
    (first second : Nat)
    (ways : Ways) :
    times (first + second) ways = (times first ways).andThen (times second ways) := by
  induction first with
  | zero => rw [Nat.zero_add, times, stay_andThen]
  | succ first inductionHypothesis =>
      rw [Nat.succ_add, times, times, inductionHypothesis, andThen_assoc]

theorem le_times
    {ways : Ways}
    (ordered : ∀ start stop passes, ways start stop passes → start ≤ stop)
    {count start stop : Nat}
    {passes : List Pass}
    (rounds : times count ways start stop passes) :
    start ≤ stop := by
  induction count generalizing start passes with
  | zero => exact Nat.le_of_eq rounds.1.symm
  | succ count inductionHypothesis =>
      obtain ⟨middle, before, after, one, others, -⟩ := rounds
      exact Nat.le_trans (ordered _ _ _ one) (inductionHypothesis others)

end Ways

/-- A way leads nowhere back. -/
theorem Node.ways_le
    (text : Array Char)
    (node : Node) :
    ∀ start stop passes, node.ways text start stop passes → start ≤ stop := by
  induction node with
  | empty => exact fun start stop passes way => Nat.le_of_eq way.1.symm
  | never => exact fun start stop passes way => way.elim
  | char test => exact fun start stop passes way => way.2.1 ▸ Nat.le_succ start
  | anchor place => exact fun start stop passes way => Nat.le_of_eq way.2.1.symm
  | seq first second ofFirst ofSecond =>
      rintro start stop passes ⟨middle, before, after, one, other, -⟩
      exact Nat.le_trans (ofFirst _ _ _ one) (ofSecond _ _ _ other)
  | alt first second ofFirst ofSecond =>
      rintro start stop passes (one | other)
      · exact ofFirst _ _ _ one
      · exact ofSecond _ _ _ other
  | group index body ofBody =>
      rintro start stop passes ⟨inner, way, -⟩
      exact ofBody _ _ _ way
  | again index folding => exact fun start stop passes way => way.1
  | look behind negated body _ => exact fun start stop passes way => Nat.le_of_eq way.1.symm
  | atomic body ofBody => exact ofBody
  | repeated greed low high body ofBody =>
      rintro start stop passes ⟨count, -, -, rounds⟩
      exact Ways.le_times ofBody rounds
  | branch index yes no ofYes ofNo =>
      rintro start stop passes (one | other)
      · exact ofYes _ _ _ one
      · exact ofNo _ _ _ other

end NoticeScan.Regex
