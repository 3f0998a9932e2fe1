import NoticeScan.Proofs.Bounds
import NoticeScan.Proofs.Sound
import NoticeScan.Scan.Normal

/-!
# What an expression cannot do without

Every way of an expression may have to take a character that passes one of certain tests. Such an
expression matches nowhere in a text that has no such character, and if any test will do, it does
not match at the end of a text.
-/

namespace NoticeScan

namespace Regex

/-- Whether every way of an expression takes a character that passes one of certain tests. -/
def Node.demands (among : CharTest → Bool) : Node → Bool
  | .empty => false
  | .never => true
  | .char test => among test
  | .anchor _ => false
  | .seq first second => first.demands among || second.demands among
  | .alt first second => first.demands among && second.demands among
  | .group _ body => body.demands among
  | .again _ _ => false
  | .look _ _ _ => false
  | .atomic body => body.demands among
  | .repeated _ low _ body => decide (0 < low) && body.demands among
  | .branch _ yes no => yes.demands among && no.demands among

/-- Somewhere from a position on a character stands that passes one of certain tests. -/
def Meets (among : CharTest → Bool) (text : Array Char) (start : Nat) : Prop :=
  ∃ pos, start ≤ pos ∧ ∃ c, text[pos]? = some c ∧ ∃ test, among test = true ∧ test.passes c = true

theorem Meets.earlier
    {among : CharTest → Bool}
    {text : Array Char}
    {start middle : Nat}
    (meets : Meets among text middle)
    (le : start ≤ middle) :
    Meets among text start := by
  obtain ⟨pos, from_, rest⟩ := meets
  exact ⟨pos, Nat.le_trans le from_, rest⟩

theorem Meets.lt_size
    {among : CharTest → Bool}
    {text : Array Char}
    {start : Nat}
    (meets : Meets among text start) :
    start < text.size := by
  obtain ⟨pos, le, c, here, -⟩ := meets
  exact Nat.lt_of_le_of_lt le (Array.getElem?_eq_some_iff.mp here).1

/-- What an expression demands is met on every way of it. -/
theorem Node.meets_of_demands
    {among : CharTest → Bool}
    (text : Array Char)
    {node : Node}
    (demands : node.demands among = true)
    {start stop : Nat}
    {passes : List Pass}
    (way : node.ways text start stop passes) :
    Meets among text start := by
  induction node generalizing start stop passes with
  | empty => cases demands
  | never => exact way.elim
  | char test =>
      obtain ⟨⟨c, here, passed⟩, -, -⟩ := way
      exact ⟨start, Nat.le_refl start, c, here, test, demands, passed⟩
  | anchor place => cases demands
  | seq first second ofFirst ofSecond =>
      obtain ⟨middle, before, after, one, other, -⟩ := way
      rcases Bool.or_eq_true_iff.mp demands with early | late
      · exact ofFirst early one
      · exact (ofSecond late other).earlier (first.ways_le text _ _ _ one)
  | alt first second ofFirst ofSecond =>
      obtain ⟨left, right⟩ := Bool.and_eq_true_iff.mp demands
      rcases way with one | other
      · exact ofFirst left one
      · exact ofSecond right other
  | group index body ofBody =>
      obtain ⟨inner, inside, -⟩ := way
      exact ofBody demands inside
  | again index folding => cases demands
  | look behind negated body _ => cases demands
  | atomic body ofBody => exact ofBody demands way
  | repeated greed low high body ofBody =>
      obtain ⟨atLeastOne, inside⟩ := Bool.and_eq_true_iff.mp demands
      obtain ⟨count, least, -, rounds⟩ := way
      obtain ⟨more, rfl⟩ : ∃ more, count = more + 1 :=
        ⟨count - 1, by have := of_decide_eq_true atLeastOne; omega⟩
      obtain ⟨middle, before, after, one, -, -⟩ := rounds
      exact ofBody inside one
  | branch index yes no ofYes ofNo =>
      obtain ⟨left, right⟩ := Bool.and_eq_true_iff.mp demands
      rcases way with one | other
      · exact ofYes left one
      · exact ofNo right other

/-- A way of an expression that demands something moves on. -/
theorem Node.moves_of_demands
    {among : CharTest → Bool}
    (text : Array Char)
    {node : Node}
    (demands : node.demands among = true)
    {start stop : Nat}
    {passes : List Pass}
    (way : node.ways text start stop passes) :
    start < stop := by
  induction node generalizing start stop passes with
  | empty => cases demands
  | never => exact way.elim
  | char test => exact way.2.1 ▸ Nat.lt_succ_self start
  | anchor place => cases demands
  | seq first second ofFirst ofSecond =>
      obtain ⟨middle, before, after, one, other, -⟩ := way
      rcases Bool.or_eq_true_iff.mp demands with early | late
      · exact Nat.lt_of_lt_of_le (ofFirst early one) (second.ways_le text _ _ _ other)
      · exact Nat.lt_of_le_of_lt (first.ways_le text _ _ _ one) (ofSecond late other)
  | alt first second ofFirst ofSecond =>
      obtain ⟨left, right⟩ := Bool.and_eq_true_iff.mp demands
      rcases way with one | other
      · exact ofFirst left one
      · exact ofSecond right other
  | group index body ofBody =>
      obtain ⟨inner, inside, -⟩ := way
      exact ofBody demands inside
  | again index folding => cases demands
  | look behind negated body _ => cases demands
  | atomic body ofBody => exact ofBody demands way
  | repeated greed low high body ofBody =>
      obtain ⟨atLeastOne, inside⟩ := Bool.and_eq_true_iff.mp demands
      obtain ⟨count, least, -, rounds⟩ := way
      obtain ⟨more, rfl⟩ : ∃ more, count = more + 1 :=
        ⟨count - 1, by have := of_decide_eq_true atLeastOne; omega⟩
      obtain ⟨middle, before, after, one, others, -⟩ := rounds
      exact Nat.lt_of_lt_of_le (ofBody inside one) (Ways.le_times (body.ways_le text) others)
  | branch index yes no ofYes ofNo =>
      obtain ⟨left, right⟩ := Bool.and_eq_true_iff.mp demands
      rcases way with one | other
      · exact ofYes left one
      · exact ofNo right other

/-! ## Searches in vain -/

section Searching

variable {regex : Regex} {text : Array Char}

/-- An expression without groups is found nowhere in a text that meets none of its demands. -/
theorem findAll_of_demands
    (bare : regex.node.bare = true)
    {among : CharTest → Bool}
    (demands : regex.node.demands among = true)
    (free : ∀ c ∈ text.toList, ∀ test, among test = true → test.passes c = false) :
    regex.findAll text = [] := by
  rw [List.eq_nil_iff_forall_not_mem]
  intro found member
  obtain ⟨passes, way, -⟩ := findAll_tells (Node.fits_of_bare bare (Nat.le_refl 0)) member
  obtain ⟨pos, -, c, here, test, asked, passed⟩ := Node.meets_of_demands text demands way
  obtain ⟨inside, rfl⟩ := Array.getElem?_eq_some_iff.mp here
  rw [free _ (Array.getElem_mem_toList inside) test asked] at passed
  cases passed

end Searching

end Regex

end NoticeScan
